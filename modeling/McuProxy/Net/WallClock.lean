/-
# The whole NTP time

`getWholeNTPNow` puts the two words of the clock into one number of 64 bits. It shifts
the seconds by 32 before it widens them: `ntpsec << 32` is an expression of 32 bits, for
which the language has no value. One machine gives zero and another one gives the seconds
back; what the shift gives is a function `shift` here, and the code is right only if it
is right for every such function.

Whatever the shift gives, the result has 32 bits. So a reading with seconds in it is
never the whole time, and the delay that `minusNTPDelay` derives from two readings, which
is exact for whole times, has lost its seconds.
-/

import McuProxy.Net.Rtcp

namespace McuProxy.Net

open RTPTransport (minusNTP)

/-- The number that a reading of the clock stands for, in units of 2⁻³² seconds. -/
def NtpTime.whole (time : NtpTime) : Nat := time.sec.toNat * 4294967296 + time.usec.toNat

/-- `getWholeNTPNow`. -/
def getWholeNTPNow (shift : UInt32 → UInt32) (now : NtpTime) : UInt64 :=
  (shift now.sec ||| now.usec).toUInt64

/-- `minusNTPDelay`. -/
def minusNTPDelay (shift : UInt32 → UInt32) (ntptime : UInt64) (now : NtpTime) : UInt32 :=
  minusNTP (getWholeNTPNow shift now) ntptime

/-- The first reading is kept whole, and the delay at the second one is the time between
them in units of 1/65536 seconds, as far as 32 bits can say it. -/
def DelayRight (shift : UInt32 → UInt32) (first second : NtpTime) : Prop :=
  (getWholeNTPNow shift first).toNat = first.whole ∧
    (minusNTPDelay shift (getWholeNTPNow shift first) second).toNat =
      min ((second.whole - first.whole) / 65536) 0xFFFFFFFF

/-- `minusNTP` is the difference of whole times, up to the largest number. -/
theorem minusNTP_toNat (ntp1 ntp2 : UInt64) :
    (minusNTP ntp1 ntp2).toNat = min ((ntp1 - ntp2).toNat / 65536) 0xFFFFFFFF := by
  have hshift : ((ntp1 - ntp2) >>> 16).toNat = (ntp1 - ntp2).toNat / 65536 := by
    rw [UInt64.toNat_shiftRight]
    exact Nat.shiftRight_eq_div_pow _ 16
  have hlimit : (0xFFFFFFFF : UInt64).toNat = 0xFFFFFFFF := rfl
  have hlimit' : (0xFFFFFFFF : UInt32).toNat = 0xFFFFFFFF := rfl
  rw [minusNTP]
  split_ifs with hsmall
  · rw [UInt64.lt_iff_toNat_lt, hshift, hlimit] at hsmall
    rw [UInt64.toNat_toUInt32, hshift]
    omega
  · rw [UInt64.lt_iff_toNat_lt, hshift, hlimit] at hsmall
    rw [hlimit']
    omega

/-- With whole readings the delay is right. -/
theorem minusNTP_of_whole {first second : NtpTime} {ntp1 ntp2 : UInt64}
    (hlater : first.whole ≤ second.whole) (hfirst : ntp2.toNat = first.whole)
    (hsecond : ntp1.toNat = second.whole) :
    (minusNTP ntp1 ntp2).toNat = min ((second.whole - first.whole) / 65536) 0xFFFFFFFF := by
  rw [minusNTP_toNat, UInt64.toNat_sub_of_le _ _ (UInt64.le_iff_toNat_le.mpr (by omega)), hfirst,
    hsecond]

/-- A reading with seconds in it is not kept whole. -/
theorem getWholeNTPNow_ne_whole (shift : UInt32 → UInt32) {now : NtpTime} (hsec : now.sec ≠ 0) :
    (getWholeNTPNow shift now).toNat ≠ now.whole := by
  have hlt := (shift now.sec ||| now.usec).toNat_lt
  have hpos : now.sec.toNat ≠ 0 := fun hzero => hsec (UInt32.toNat_inj.mp hzero)
  rw [getWholeNTPNow, UInt32.toNat_toUInt64, NtpTime.whole]
  omega

/-- Where every bit of the fraction is set, the shift does not matter. -/
theorem getWholeNTPNow_full (shift : UInt32 → UInt32) (sec : UInt32) :
    (getWholeNTPNow shift ⟨sec, 0xFFFFFFFF⟩).toNat = 0xFFFFFFFF := by
  have hbits : shift sec ||| 0xFFFFFFFF = 0xFFFFFFFF := UInt32.or_neg_one
  rw [getWholeNTPNow, hbits]
  rfl

/-- The delay in terms of the two numbers that stand for the readings. -/
theorem minusNTPDelay_toNat (shift : UInt32 → UInt32) (first second : NtpTime) :
    (minusNTPDelay shift (getWholeNTPNow shift first) second).toNat =
      min ((18446744073709551616 - (getWholeNTPNow shift first).toNat +
        (getWholeNTPNow shift second).toNat) % 18446744073709551616 / 65536) 0xFFFFFFFF := by
  rw [minusNTPDelay, minusNTP_toNat, UInt64.toNat_sub]

theorem NtpTime.eq_of_toNat {time : NtpTime} {sec usec : UInt32}
    (hsec : time.sec.toNat = sec.toNat) (husec : time.usec.toNat = usec.toNat) :
    time = ⟨sec, usec⟩ := by
  rw [← UInt32.toNat_inj.mp hsec, ← UInt32.toNat_inj.mp husec]

/-- A shift to ones shows no reading but the full one whole, and a shift to zero shows no
later one in time. -/
theorem full_of_delayRight {first second : NtpTime} (hlater : first.whole ≤ second.whole)
    (hright : ∀ shift, DelayRight shift first second) :
    first = ⟨0, 0xFFFFFFFF⟩ ∧ second = ⟨0, 0xFFFFFFFF⟩ := by
  have hones : ∀ now, (getWholeNTPNow (fun _ => 0xFFFFFFFF) now).toNat = 0xFFFFFFFF := by
    intro now
    have hbits : 0xFFFFFFFF ||| now.usec = 0xFFFFFFFF := UInt32.neg_one_or
    rw [getWholeNTPNow, hbits]
    rfl
  have hzero : ∀ now, (getWholeNTPNow (fun _ => 0) now).toNat = now.usec.toNat := by
    intro now
    rw [getWholeNTPNow, UInt32.zero_or, UInt32.toNat_toUInt64]
  obtain ⟨hwhole, hdelay⟩ := hright fun _ => 0xFFFFFFFF
  obtain ⟨-, hdelay'⟩ := hright fun _ => 0
  rw [minusNTPDelay_toNat, hones, hones] at hdelay
  rw [minusNTPDelay_toNat, hzero, hzero] at hdelay'
  rw [hones] at hwhole
  simp only [NtpTime.whole] at *
  have hfirst := first.usec.toNat_lt
  have hsecond := second.usec.toNat_lt
  have hlimit : (0xFFFFFFFF : UInt32).toNat = 0xFFFFFFFF := rfl
  exact ⟨NtpTime.eq_of_toNat (show _ = 0 by omega) (by omega),
    NtpTime.eq_of_toNat (show _ = 0 by omega) (by omega)⟩

/-- The delay is right, whatever the shift gives, for no readings but the last ones before
the seconds would be one; and with seconds in the first reading it is right for no
shift. -/
theorem delayRight_iff (first second : NtpTime) (hlater : first.whole ≤ second.whole) :
    ((∀ shift, DelayRight shift first second) ↔
      first = ⟨0, 0xFFFFFFFF⟩ ∧ second = ⟨0, 0xFFFFFFFF⟩) ∧
    (first.sec ≠ 0 → ∀ shift, ¬ DelayRight shift first second) := by
  refine ⟨⟨full_of_delayRight hlater, ?_⟩, ?_⟩
  · rintro ⟨rfl, rfl⟩ shift
    have hwhole := getWholeNTPNow_full shift 0
    exact ⟨hwhole, minusNTP_of_whole hlater hwhole hwhole⟩
  · intro hsec shift hright
    exact getWholeNTPNow_ne_whole shift hsec hright.1

/-- The readings for which the delay is right. -/
theorem delayRight_iff_full :
    (⟨0, 0xFFFFFFFF⟩ : NtpTime).whole ≤ (⟨0, 0xFFFFFFFF⟩ : NtpTime).whole ∧
      ∀ shift, DelayRight shift ⟨0, 0xFFFFFFFF⟩ ⟨0, 0xFFFFFFFF⟩ :=
  ⟨le_rfl, (delayRight_iff _ _ le_rfl).1.mpr ⟨rfl, rfl⟩⟩

/-- Two readings in the year 2023, two seconds apart. -/
theorem whole_reading_lost :
    ¬ ∃ shift, DelayRight shift ⟨3900000000, 0⟩ ⟨3900000002, 0⟩ := by
  rintro ⟨shift, hright, -⟩
  exact getWholeNTPNow_ne_whole shift (by decide) hright

end McuProxy.Net
