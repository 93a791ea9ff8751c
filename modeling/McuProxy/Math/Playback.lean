/-
# Playing a queue of tracks

A player works through a queue of tracks, one entry at a time. Played once, a track
is taken off the queue when its turn comes; played endlessly, it is also put back at
the end. What is heard is then a list read from front to back, or read in a circle:
taking the first part of a list away and putting it behind the rest does not change
the circle, and this is the only fact about rotation that the run needs.
-/

import Mathlib.Data.List.Rotate

namespace McuProxy.Math

universe u

variable {α : Type u}

/-- The entry that is played at time `n`, if a list is played once or in a circle. -/
def playing (endless : Bool) (list : List α) (n : Nat) : Option α :=
  if endless then list[n % list.length]? else list[n]?

theorem playing_once (list : List α) (n : Nat) : playing false list n = list[n]? := rfl

theorem playing_endless (list : List α) (n : Nat) :
    playing true list n = list[n % list.length]? := rfl

theorem playing_of_lt (endless : Bool) {list : List α} {n : Nat} (hn : n < list.length) :
    playing endless list n = list[n]? := by
  cases endless with
  | false => rfl
  | true => rw [playing_endless, Nat.mod_eq_of_lt hn]

/-- Nothing is played when there is nothing, or when the list has been played once. -/
theorem playing_eq_none_iff {endless : Bool} {list : List α} {n : Nat} :
    playing endless list n = none ↔ list = [] ∨ endless = false ∧ list.length ≤ n := by
  cases endless with
  | false =>
      rw [playing_once, List.getElem?_eq_none_iff]
      constructor
      · exact fun hend => .inr ⟨rfl, hend⟩
      · rintro (rfl | ⟨-, hend⟩)
        · exact Nat.zero_le n
        · exact hend
  | true =>
      rw [playing_endless, List.getElem?_eq_none_iff, ← List.length_eq_zero_iff]
      simp only [Bool.true_eq_false, false_and, or_false]
      constructor
      · intro hend
        by_contra hlength
        exact absurd (Nat.mod_lt n (Nat.pos_of_ne_zero hlength)) (not_lt.mpr hend)
      · intro hlength
        rw [hlength]
        exact Nat.zero_le _

theorem mem_of_playing {endless : Bool} {list : List α} {n : Nat} {entry : α}
    (hplaying : playing endless list n = some entry) : entry ∈ list := by
  cases endless with
  | false => exact List.mem_of_getElem? hplaying
  | true => exact List.mem_of_getElem? hplaying

/-- Every entry of a list is played at some time. -/
theorem exists_playing_of_mem (endless : Bool) {list : List α} {entry : α} (hmem : entry ∈ list) :
    ∃ n, playing endless list n = some entry := by
  obtain ⟨n, hn, rfl⟩ := List.mem_iff_getElem.mp hmem
  exact ⟨n, by rw [playing_of_lt endless hn, List.getElem?_eq_getElem hn]⟩

/-- A list is heard as another one that is played once exactly when it is that list,
and is played once itself unless it is empty. -/
theorem playing_eq_once_iff {endless : Bool} {first second : List α} :
    (∀ n, playing endless first n = playing false second n) ↔
      first = second ∧ (first = [] ∨ endless = false) := by
  constructor
  · intro hsame
    have hend := hsame second.length
    rw [playing_once, List.getElem?_eq_none le_rfl, playing_eq_none_iff] at hend
    rcases hend with rfl | ⟨rfl, -⟩
    · refine ⟨?_, .inl rfl⟩
      apply List.ext_getElem?
      intro n
      have hsilent := hsame n
      rw [playing_eq_none_iff.mpr (.inl rfl), playing_once] at hsilent
      rw [List.getElem?_nil, hsilent]
    · exact ⟨List.ext_getElem? hsame, .inr rfl⟩
  · rintro ⟨rfl, rfl | rfl⟩ n
    · rw [playing_eq_none_iff.mpr (.inl rfl), playing_eq_none_iff.mpr (.inl rfl)]
    · rfl

/-- The first part of a list, and then the rest, with the first part behind it where
the list is played in a circle. -/
theorem playing_append (endless : Bool) (first second : List α) (n : Nat) :
    playing endless (first ++ second) n =
      if n < first.length then first[n]?
      else playing endless (if endless then second ++ first else second) (n - first.length) := by
  by_cases hn : n < first.length
  · rw [if_pos hn, playing_of_lt endless (by rw [List.length_append]; omega),
      List.getElem?_append_left hn]
  · rw [if_neg hn]
    cases endless with
    | false =>
        rw [playing_once, List.getElem?_append_right (not_lt.mp hn)]
        rfl
    | true =>
        rw [if_pos rfl, playing_endless, playing_endless]
        rcases Nat.eq_zero_or_pos (first ++ second).length with hzero | hpos
        · obtain ⟨rfl, rfl⟩ := List.append_eq_nil_iff.mp (List.length_eq_zero_iff.mp hzero)
          rfl
        · have hlength : (second ++ first).length = (first ++ second).length := by
            rw [List.length_append, List.length_append, Nat.add_comm]
          have hback : n - first.length + first.length = n := Nat.sub_add_cancel (not_lt.mp hn)
          rw [hlength, ← List.rotate_append_length_eq first second,
            List.getElem?_rotate (Nat.mod_lt _ hpos), Nat.mod_add_mod, hback]

/-- The circle of a list that commutes with another is the circle of both, one behind the
other. -/
theorem playing_append_of_commute {first second : List α} (hfirst : first ≠ [])
    (hcommute : first ++ second = second ++ first) (n : Nat) :
    playing true (first ++ second) n = playing true first n := by
  have hlength := List.length_pos_of_ne_nil hfirst
  induction n using Nat.strongRecOn with
  | ind n ih =>
      rw [playing_append]
      by_cases hn : n < first.length
      · rw [if_pos hn, playing_of_lt true hn]
      · rw [if_neg hn, if_pos rfl, ← hcommute, ih (n - first.length) (by omega), playing_endless,
          playing_endless, ← Nat.mod_eq_sub_mod (not_lt.mp hn)]

/-- The beginning of two circles that sound the same. -/
theorem append_getElem?_of_same {first second : List α}
    (hsame : ∀ n, playing true first n = playing true second n) {n : Nat}
    (hn : n < first.length + second.length) :
    (first ++ second)[n]? = playing true first n := by
  by_cases hlt : n < first.length
  · rw [List.getElem?_append_left hlt, playing_of_lt true hlt]
  · have hrest : n - first.length < second.length := by omega
    rw [List.getElem?_append_right (not_lt.mp hlt), ← playing_of_lt true hrest, ← hsame,
      playing_endless, playing_endless, ← Nat.mod_eq_sub_mod (not_lt.mp hlt)]

/-- Two lists sound the same in a circle exactly when they commute. -/
theorem playing_endless_eq_iff {first second : List α} (hfirst : first ≠ [])
    (hsecond : second ≠ []) :
    (∀ n, playing true first n = playing true second n) ↔ first ++ second = second ++ first := by
  constructor
  · intro hsame
    apply List.ext_getElem?
    intro n
    by_cases hn : n < first.length + second.length
    · rw [append_getElem?_of_same hsame hn,
        append_getElem?_of_same (fun n => (hsame n).symm) (Nat.add_comm .. ▸ hn), hsame]
    · rw [List.getElem?_eq_none (by rw [List.length_append]; omega),
        List.getElem?_eq_none (by rw [List.length_append]; omega)]
  · intro hcommute n
    rw [← playing_append_of_commute hfirst hcommute, hcommute,
      playing_append_of_commute hsecond hcommute.symm]

/-- A list that is not played once to its end is not empty. -/
theorem playing_zero_eq_none_iff {endless : Bool} {list : List α} :
    playing endless list 0 = none ↔ list = [] := by
  rw [playing_eq_none_iff, Nat.le_zero, List.length_eq_zero_iff]
  exact ⟨fun hnone => hnone.elim id And.right, Or.inl⟩

/-- A stretch of what is to be played. It is not empty, so that every turn of a
player gives an entry. -/
structure Track (α : Type u) where
  entries : List α
  nonempty : entries ≠ []

/-- The rest of the track that is being played, and the tracks to come. -/
structure Player (α : Type u) where
  endless : Bool
  current : List α
  queue : List (Track α)

namespace Player

/-- One turn: the next entry, and the player after it. -/
def next (player : Player α) : Option α × Player α :=
  match player.current, player.queue with
  | entry :: rest, _ => (some entry, { player with current := rest })
  | [], [] => (none, player)
  | [], track :: tracks =>
      (track.entries.head?,
        { player with
          current := track.entries.tail
          queue := if player.endless then tracks ++ [track] else tracks })

/-- The player after some turns. -/
def after : Nat → Player α → Player α
  | 0, player => player
  | n + 1, player => after n player.next.2

/-- The entries of the queue in their order. -/
def entries (queue : List (Track α)) : List α := queue.flatMap Track.entries

/-- What a player gives in the turn after `n` others. -/
def upcoming (player : Player α) (n : Nat) : Option α :=
  if n < player.current.length then player.current[n]?
  else playing player.endless (entries player.queue) (n - player.current.length)

theorem next_fst (player : Player α) : player.next.1 = player.upcoming 0 := by
  obtain ⟨endless, current, queue⟩ := player
  match current, queue with
  | entry :: rest, _ => rfl
  | [], [] => cases endless <;> rfl
  | [], ⟨[], hempty⟩ :: tracks => exact absurd rfl hempty
  | [], ⟨entry :: rest, _⟩ :: tracks =>
      simp only [next, upcoming, List.length_nil, lt_irrefl, if_false, Nat.sub_zero]
      rw [playing_of_lt endless (by simp [entries])]
      rfl

/-- A turn moves everything that is upcoming one place up. -/
theorem next_upcoming (player : Player α) (n : Nat) :
    player.next.2.upcoming n = player.upcoming (n + 1) := by
  obtain ⟨endless, current, queue⟩ := player
  match current, queue with
  | entry :: rest, _ =>
      simp only [next, upcoming, List.length_cons, List.getElem?_cons_succ,
        Nat.add_lt_add_iff_right, Nat.add_sub_add_right]
      rfl
  | [], [] => cases endless <;> simp [next, upcoming, playing, entries]
  | [], ⟨[], hempty⟩ :: tracks => exact absurd rfl hempty
  | [], ⟨entry :: rest, hne⟩ :: tracks =>
      have hqueue : entries (if endless then tracks ++ [⟨entry :: rest, hne⟩] else tracks) =
          if endless then entries tracks ++ entry :: rest else entries tracks := by
        cases endless <;> simp [entries]
      have hcons : entries (⟨entry :: rest, hne⟩ :: tracks) = (entry :: rest) ++ entries tracks :=
        rfl
      simp only [next, upcoming, List.tail_cons, List.length_nil, Nat.not_lt_zero, if_false,
        Nat.sub_zero, hqueue, hcons]
      rw [playing_append]
      simp only [List.length_cons, List.getElem?_cons_succ, Nat.add_lt_add_iff_right,
        Nat.add_sub_add_right]

theorem after_upcoming (turns : Nat) (player : Player α) (n : Nat) :
    (after turns player).upcoming n = player.upcoming (n + turns) := by
  induction turns generalizing player with
  | zero => rfl
  | succ turns ih => rw [after, ih, next_upcoming, Nat.add_assoc]

/-- A player that has just been loaded plays its queue. -/
theorem upcoming_loaded {player : Player α} (hloaded : player.current = []) (n : Nat) :
    player.upcoming n = playing player.endless (entries player.queue) n := by
  rw [upcoming, hloaded, List.length_nil, if_neg (Nat.not_lt_zero n), Nat.sub_zero]

/-- Nothing is upcoming exactly when the player has stopped. -/
theorem upcoming_zero_eq_none_iff (player : Player α) :
    player.upcoming 0 = none ↔ player.current = [] ∧ player.queue = [] := by
  obtain ⟨endless, current, queue⟩ := player
  rw [← next_fst]
  match current, queue with
  | entry :: rest, _ => simp [next]
  | [], [] => simp [next]
  | [], ⟨[], hempty⟩ :: tracks => exact absurd rfl hempty
  | [], ⟨entry :: rest, _⟩ :: tracks => simp [next]

end Player

end McuProxy.Math
