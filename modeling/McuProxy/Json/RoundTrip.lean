/-
# What is printed is read back

The printed text of a tree is a JSON text with the value of the tree, with format or
without, so the parser accepts it and the new tree has the same value.

A string is read back whatever its bytes are; only the null character cannot be in
it. A number is read back when it is an `int`: its digits are read one by one, and
every step is exact. Of other numbers six digits behind the point are printed.
-/

import McuProxy.Json.Accept
import McuProxy.Json.PrintSafe

namespace McuProxy.Json

open McuProxy.Math Allocating

/-- A control character without a letter of its own. -/
theorem control_text {c : UInt8} (hc : c < 32) :
    ∃ char : Char, hexNumber (ch '0') (ch '0') (hexText (c / 16)) (hexText (c % 16)) =
      some char.val ∧ (c ≠ 0 → char.val ≠ 0) ∧ String.utf8EncodeChar char = [c] := by
  have hall : ∀ n : Fin 32, hexNumber (ch '0') (ch '0') (hexText (UInt8.ofNat n / 16))
      (hexText (UInt8.ofNat n % 16)) = some (Char.ofNat n).val ∧
      (UInt8.ofNat n ≠ 0 → (Char.ofNat n).val ≠ 0) ∧
      String.utf8EncodeChar (Char.ofNat n) = [UInt8.ofNat n] := by decide
  have hn := hall ⟨c.toNat, UInt8.lt_iff_toNat_lt.mp hc⟩
  rw [show UInt8.ofNat c.toNat = c from UInt8.ofNat_toNat] at hn
  exact ⟨_, hn⟩

/-- The text between the quotes, whatever the bytes are. -/
theorem quoted_escapedText {str : List UInt8} (hstr : 0 ∉ str) : Quoted str (escapedText str) := by
  induction str with
  | nil => exact Quoted.nil
  | cons token str ih =>
      obtain ⟨hzero, hrest⟩ := not_or.mp (List.mem_cons.not.mp hstr)
      have hzero : token ≠ 0 := fun heq => hzero heq.symm
      rw [escapedText, if_neg hzero]
      split_ifs with hplain
      · have hc : 32 ≤ token := by
          have hlt := UInt8.lt_iff_toNat_lt.mp hplain.1
          exact UInt8.le_iff_toNat_le.mpr hlt
        exact Quoted.plain hc hplain.2.1 hplain.2.2 (ih hrest)
      · by_cases hmarked : token ∈ marked
        · have hletters : ∀ token ∈ marked,
              ∃ escape ∈ simpleEscapes, escapeText token = [escape.1] ∧ escape.2 = token := by
            decide +kernel
          obtain ⟨⟨e, c⟩, hmem, htext, rfl⟩ := hletters token hmarked
          rw [htext]
          exact Quoted.escape hmem (ih hrest)
        · have hmarks : token ≠ ch '\\' ∧ token ≠ ch '"' ∧ token ≠ 8 ∧ token ≠ 12 ∧ token ≠ 10 ∧
              token ≠ 13 ∧ token ≠ 9 := by
            refine ⟨?_, ?_, ?_, ?_, ?_, ?_, ?_⟩ <;> rintro rfl <;> exact hmarked (by decide)
          have hcontrol : token < 32 := by
            have hle : ¬31 < token := fun hlt => hplain ⟨hlt, hmarks.2.1, hmarks.1⟩
            rw [UInt8.lt_iff_toNat_lt] at hle ⊢
            change ¬31 < token.toNat at hle
            change token.toNat < 32
            omega
          have htext : escapeText token =
              [ch 'u', ch '0', ch '0', hexText (token / 16), hexText (token % 16)] := by
            simp only [escapeText, hmarks, if_false]
          obtain ⟨char, hnumber, hnonzero, hbytes⟩ := control_text hcontrol
          have hquoted := Quoted.unicode hnumber (hnonzero hzero) (ih hrest)
          rw [hbytes] at hquoted
          rw [htext]
          exact hquoted

theorem digitText_of_pos {n : Nat} (hn : n ≠ 0) :
    digitText n = digitText (n / 10) ++ [(48 + n % 10).toUInt8] := by
  rw [digitText, Nat.digits_eq_cons_digits_div (by decide) hn, List.reverse_cons, List.map_append]
  rfl

theorem digit_isDigit (n : Nat) : isDigit (48 + n % 10).toUInt8 = true ∧
    (48 + n % 10).toUInt8.toNat = 48 + n % 10 := by
  have hlt : n % 10 < 10 := Nat.mod_lt n (by decide)
  have hvalue : (48 + n % 10).toUInt8.toNat = 48 + n % 10 :=
    UInt8.toNat_ofNat_of_lt' (by change 48 + n % 10 < 256; omega)
  exact ⟨(isDigit_iff _).mpr (by omega), hvalue⟩

/-- The digits of a number are digits, and the first of them is not zero. -/
theorem digitText_digits (n : Nat) : (∀ c ∈ digitText n, isDigit c = true) ∧
    ∀ c ∈ (digitText n).head?, c ≠ ch '0' := by
  induction n using Nat.strong_induction_on with
  | _ n ih =>
      by_cases hn : n = 0
      · subst hn
        exact ⟨fun c hc => absurd hc (by simp [digitText]),
          fun c hc => absurd hc (by simp [digitText])⟩
      · obtain ⟨hdigits, hhead⟩ := ih (n / 10) (Nat.div_lt_self (Nat.pos_of_ne_zero hn) (by decide))
        rw [digitText_of_pos hn]
        refine ⟨fun c hc => ?_, fun c hc => ?_⟩
        · rcases List.mem_append.mp hc with hc | hc
          · exact hdigits c hc
          · rw [List.mem_singleton.mp hc]
            exact (digit_isDigit n).1
        · cases hfirst : digitText (n / 10) with
          | cons first rest =>
              rw [hfirst] at hc hhead
              exact hhead c hc
          | nil =>
              rw [hfirst] at hc
              obtain rfl := Option.some.inj hc
              have hsmall : n < 10 := by
                by_contra hlarge
                have hne : n / 10 ≠ 0 := by omega
                rw [digitText_of_pos hne] at hfirst
                exact absurd hfirst (by simp)
              intro heq
              have hzero := congrArg UInt8.toNat heq
              rw [(digit_isDigit n).2] at hzero
              change 48 + n % 10 = 48 at hzero
              omega

/-- The digits of a number denote it. -/
theorem digitsValue_digitText (n : Nat) : digitsValue (digitText n) = n := by
  have hdigit : ∀ digit ∈ Nat.digits 10 n, (48 + digit).toUInt8.toNat - 48 = digit := by
    intro digit hdigit
    have hlt := Nat.digits_lt_base (by decide) hdigit
    rw [UInt8.toNat_ofNat_of_lt' (by change 48 + digit < 256; omega)]
    omega
  rw [digitsValue, digitText, ← List.map_reverse, List.reverse_reverse, List.map_map]
  calc Nat.ofDigits 10 ((Nat.digits 10 n).map fun digit => (48 + digit).toUInt8.toNat - 48)
      = Nat.ofDigits 10 ((Nat.digits 10 n).map id) := by rw [List.map_congr_left hdigit]; rfl
    _ = n := by rw [List.map_id, Nat.ofDigits_digits]

/-- The number that `%d` prints. -/
def intNumeral (i : Int) : Numeral where
  negative := i < 0
  whole := digitText i.natAbs
  fraction := []
  exponent := none
  isWhole := (digitText_digits i.natAbs).1
  leading := (digitText_digits i.natAbs).2
  isFraction := nofun

theorem intNumeral_text (i : Int) : (intNumeral i).text = decimal i := by
  have hempty : digitText i.natAbs = [] ↔ i = 0 := by
    rw [← Int.natAbs_eq_zero]
    refine ⟨fun hnil => ?_, fun hzero => by rw [hzero]; rfl⟩
    by_contra hne
    rw [digitText_of_pos hne] at hnil
    exact absurd hnil (by simp)
  simp only [Numeral.text, intNumeral, hempty, decide_eq_true_eq, if_true, Option.elim_none,
    List.append_nil, decimal]

theorem intNumeral_mantissa (i : Int) : (intNumeral i).mantissa = i.natAbs := by
  rw [Numeral.mantissa, show (intNumeral i).fraction = [] from rfl, List.append_nil]
  exact digitsValue_digitText i.natAbs

section Numbers

variable {D : Type} [Doubles D]

/-- A number that is an `int`, and its printed digits. -/
def PrintedAs (n : D) (numeral : Numeral) : Prop :=
  ∃ i : Int32, n = Doubles.ofInt i.toInt ∧ numeral = intNumeral i.toInt

/-- A number that is an `int` is read as it was printed. -/
theorem PrintedAs.readFrom [Doubles.Exact D] {n read : D} {numeral : Numeral}
    (hprinted : PrintedAs n numeral) (hread : ReadFrom read numeral) : n = read := by
  obtain ⟨i, rfl, rfl⟩ := hprinted
  have hbounds := int32_bounds i
  have hmantissa := intNumeral_mantissa i.toInt
  have hfits : (intNumeral i.toInt).Fits := by
    refine ⟨?_, Nat.pow_pos (by decide), Nat.zero_le _⟩
    rw [hmantissa]
    unfold Doubles.Whole
    omega
  have hsign : (intNumeral i.toInt).sign = if i.toInt < 0 then -1 else 1 := by
    simp only [Numeral.sign, intNumeral, decide_eq_true_eq]
  rw [hread.whole hfits rfl ?_, hmantissa, hsign]
  · congr 1
    split_ifs <;> omega
  · rw [hmantissa, hsign]
    split_ifs <;> omega

/-- A number that is an `int` is printed as one. -/
theorem printsInt_of_int [Doubles.Exact D] {fields : Fields D}
    (hint : fields.valuedouble = Doubles.ofInt fields.valueint.toInt) :
    printsInt fields = true := by
  have hbounds := int32_bounds fields.valueint
  rw [printsInt, hint, Doubles.Exact.sub_self_le, Doubles.Exact.ofInt_le _ _ hbounds.2,
    Doubles.Exact.ofInt_le _ _ hbounds.1]
  rfl

end Numbers

section Trees

variable {D : Type} [Doubles D]

/-- Strings without null characters, and a number that is an `int`. -/
structure Fields.Plain (fields : Fields D) : Prop where
  number : fields.kind = typeNumber → fields.valuedouble = Doubles.ofInt fields.valueint.toInt
  valuestring : ∀ str ∈ fields.valuestring, 0 ∉ str.chars
  string : ∀ str ∈ fields.string, 0 ∉ str.chars

/-- Every item of a tree is plain. -/
def Item.Plain : Item D → Prop
  | .null => True
  | .node _ fields child next => fields.Plain ∧ child.Plain ∧ next.Plain

theorem blank_tabs (depth : Nat) : Blank (tabs depth) := fun c hc => by
  rw [List.eq_of_mem_replicate hc]
  decide

theorem blank_if (fmt : Bool) {blank : Text} (hblank : Blank blank) :
    Blank (if fmt then blank else []) := by
  cases fmt with
  | true => exact hblank
  | false => exact fun c hc => absurd hc List.not_mem_nil

theorem Blank.append {first second : Text} (hfirst : Blank first) (hsecond : Blank second) :
    Blank (first ++ second) := fun c hc =>
  (List.mem_append.mp hc).elim (hfirst c) (hsecond c)

theorem blank_nil : Blank [] := fun _ hc => absurd hc List.not_mem_nil

/-- A text says a value, with its numbers as they are printed. -/
def SaidBy (json : Value D) (text : Text) : Prop :=
  ∃ other, Alike PrintedAs (.value json) (.value other) ∧ Derives (.value other) text

/-- The elements of an array that are printed one behind the other. -/
theorem derives_elements (fmt : Bool) {elements : List (Value D)} {texts : List Text}
    (hall : List.Forall₂ SaidBy elements texts) (hsome : texts ≠ []) {before : Text}
    (hbefore : Blank before) :
    ∃ others, Alike PrintedAs (.elements elements) (.elements others) ∧
      Derives (.elements others) (before ++ elementsText fmt texts) := by
  induction hall generalizing before with
  | nil => exact absurd rfl hsome
  | @cons json text elements texts hjson hall ih =>
      obtain ⟨other, halike, hother⟩ := hjson
      cases hall with
      | nil =>
          have hlast := Derives.lastElement hbefore hother blank_nil
          rw [List.append_nil] at hlast
          exact ⟨[other], halike.element .noElement, hlast⟩
      | cons hnext hall =>
          have hspace : Blank (if fmt then [ch ' '] else []) := blank_if fmt (by simp [Blank])
          obtain ⟨others, hothers, hrest⟩ := ih (List.cons_ne_nil _ _) hspace
          exact ⟨other :: others, halike.element hothers,
            Derives.element hbefore hother blank_nil hrest⟩

/-- The value of a member and its printed name and text. -/
def MemberPrinted (member : List UInt8 × Value D) (text : Text × Text) : Prop :=
  text.1 = quotedText member.1 ∧ 0 ∉ member.1 ∧ SaidBy member.2 text.2

/-- The members of an object that are printed one behind the other, up to the white space
in front of the bracket. -/
theorem derives_members (fmt : Bool) (depth : Nat) {members : List (List UInt8 × Value D)}
    {texts : List (Text × Text)}
    (hall : List.Forall₂ MemberPrinted members texts)
    (hsome : texts ≠ []) {before after : Text} (hbefore : Blank before) (hafter : Blank after) :
    ∃ others, Alike PrintedAs (.members members) (.members others) ∧
      Derives (.members others) (before ++ (membersText fmt depth texts ++ after)) := by
  have hnewline : Blank (if fmt then [10] else []) := blank_if fmt (by simp [Blank])
  have hspace : Blank (if fmt then [9] else []) := blank_if fmt (by simp [Blank])
  have htabs : Blank (if fmt then tabs depth else []) := blank_if fmt (blank_tabs depth)
  induction hall generalizing before with
  | nil => exact absurd rfl hsome
  | @cons member text members texts hmember hall ih =>
      obtain ⟨hname, hzero, other, halike, hvalue⟩ := hmember
      cases hall with
      | nil =>
          have hlast := Derives.lastMember (hbefore.append htabs) (quoted_escapedText hzero)
            blank_nil hspace hvalue (hnewline.append hafter)
          refine ⟨[(member.1, other)], halike.member member.1 .noMember, ?_⟩
          simpa only [membersText, hname, quotedText, List.isEmpty_nil, if_true, List.cons_append,
            List.append_assoc, List.nil_append, List.append_nil] using hlast
      | cons hnext hall =>
          obtain ⟨others, hothers, hrest⟩ := ih (List.cons_ne_nil _ _) hnewline
          have hmore := Derives.member (hbefore.append htabs) (quoted_escapedText hzero)
            blank_nil hspace hvalue blank_nil hrest
          refine ⟨(member.1, other) :: others, halike.member member.1 hothers, ?_⟩
          rw [membersText]
          simpa only [hname, quotedText, List.isEmpty_cons, Bool.false_eq_true, if_false,
            List.cons_append, List.append_assoc, List.nil_append, List.append_nil] using hmore

omit [Doubles D] in
/-- The end of a chain has no values. -/
theorem Item.values_of_isNull {item : Item D} (hnull : item.isNull = true)
    {values : List (Option (List UInt8) × Value D)} (hvalues : item.values = some values) :
    values = [] := by
  cases item with
  | null => exact (Option.some.inj hvalues).symm
  | node => exact absurd hnull Bool.false_ne_true

/-- The texts of a chain of items are those of its values, at any depth. -/
structure ChainPrinted (fmt : Bool) (item : Item D)
    (values : List (Option (List UInt8) × Value D)) : Prop where
  elements : ∀ depth, ∃ texts, elementTexts fmt item depth = some texts ∧
    (item.isNull = false → texts ≠ []) ∧
    List.Forall₂ SaidBy (values.map Prod.snd) texts
  members : ∀ depth members, values.mapM (fun child => child.1.map (·, child.2)) = some members →
    ∃ texts, memberTexts fmt item depth = some texts ∧ (item.isNull = false → texts ≠ []) ∧
      List.Forall₂ MemberPrinted members texts

/-- The text of an array, from those of its elements. -/
theorem array_said {fmt : Bool} {child : Item D} {values : List (Option (List UInt8) × Value D)}
    (hprinted : ChainPrinted fmt child values) (hnone : child.isNull = true → values = [])
    (depth : Nat) :
    ∃ text, (if child.isNull then some [ch '[', ch ']']
      else (elementTexts fmt child (depth + 1)).map (arrayText fmt)) = some text ∧
        SaidBy (.array (values.map Prod.snd)) text := by
  cases hempty : child.isNull with
  | true =>
      rw [hnone hempty]
      exact ⟨_, rfl, .array [], .array .noElement, Derives.emptyArray blank_nil⟩
  | false =>
      obtain ⟨texts, htexts, hsome, hall⟩ := hprinted.elements (depth + 1)
      obtain ⟨others, halike, hderives⟩ := derives_elements fmt hall (hsome hempty) blank_nil
      refine ⟨arrayText fmt texts, ?_, .array others, halike.array, Derives.array hderives⟩
      simp only [Bool.false_eq_true, if_false, htexts, Option.map_some]

/-- The text of an object, from those of its members. -/
theorem object_said {fmt : Bool} {child : Item D} {values : List (Option (List UInt8) × Value D)}
    (hprinted : ChainPrinted fmt child values) {members : List (List UInt8 × Value D)}
    (hmembers : values.mapM (fun child => child.1.map (·, child.2)) = some members)
    (hnone : child.isNull = true → values = []) (depth : Nat) :
    ∃ text, (if child.isNull then
        some (ch '{' :: ((if fmt then 10 :: tabs (depth - 1) else []) ++ [ch '}']))
      else (memberTexts fmt child (depth + 1)).map (objectText fmt (depth + 1))) = some text ∧
        SaidBy (.object members) text := by
  cases hempty : child.isNull with
  | true =>
      rw [hnone hempty] at hmembers
      obtain rfl := Option.some.inj hmembers
      have hblank : Blank (if fmt then 10 :: tabs (depth - 1) else []) :=
        blank_if fmt (Blank.append (show Blank [10] by simp [Blank]) (blank_tabs (depth - 1)))
      exact ⟨_, rfl, .object [], .object .noMember, Derives.emptyObject hblank⟩
  | false =>
      obtain ⟨texts, htexts, hsome, hall⟩ := hprinted.members (depth + 1) members hmembers
      have hnewline : Blank (if fmt then [10] else []) := blank_if fmt (by simp [Blank])
      have htabs : Blank (if fmt then tabs (depth + 1 - 1) else []) := blank_if fmt (blank_tabs _)
      obtain ⟨others, halike, hderives⟩ :=
        derives_members fmt (depth + 1) hall (hsome hempty) hnewline htabs
      refine ⟨objectText fmt (depth + 1) texts, ?_, .object others, halike.object, ?_⟩
      · simp only [Bool.false_eq_true, if_false, htexts, Option.map_some]
      · simpa only [objectText, List.append_assoc] using Derives.object hderives

variable [Doubles.Exact D]

/-- The text of an item is a text of its value. -/
theorem derives_fields (fmt : Bool) {fields : Fields D} (hplain : fields.Plain) {child : Item D}
    (hchild : ∀ values, child.values = some values → ChainPrinted fmt child values)
    {json : Value D} (hjson : fields.value child.values = some json) (depth : Nat) :
    ∃ text, fieldsText fmt fields child.isNull (fun depth => elementTexts fmt child depth)
      (fun depth => memberTexts fmt child depth) depth = some text ∧
        SaidBy json text := by
  unfold fieldsText
  by_cases hnull : fields.kind = typeNull
  · rw [Fields.value_null _ hnull] at hjson
    obtain rfl := Option.some.inj hjson
    exact ⟨nullText, if_pos hnull, .null, .null, Derives.null⟩
  rw [if_neg hnull]
  by_cases hfalse : fields.kind = typeFalse
  · rw [Fields.value_false _ hfalse] at hjson
    obtain rfl := Option.some.inj hjson
    exact ⟨falseText, if_pos hfalse, .false, .false, Derives.false⟩
  rw [if_neg hfalse]
  by_cases htrue : fields.kind = typeTrue
  · rw [Fields.value_true _ htrue] at hjson
    obtain rfl := Option.some.inj hjson
    exact ⟨trueText, if_pos htrue, .true, .true, Derives.true⟩
  rw [if_neg htrue]
  by_cases hnumber : fields.kind = typeNumber
  · have hint := hplain.number hnumber
    rw [Fields.value_number _ hnumber, hint] at hjson
    obtain rfl := Option.some.inj hjson
    rw [if_pos hnumber, printsInt_of_int hint]
    have hprinted : PrintedAs (Doubles.ofInt fields.valueint.toInt : D)
        (intNumeral fields.valueint.toInt) := ⟨fields.valueint, rfl, rfl⟩
    refine ⟨_, rfl, .number (intNumeral fields.valueint.toInt), .number hprinted, ?_⟩
    rw [← intNumeral_text]
    exact Derives.number _
  rw [if_neg hnumber]
  by_cases hstring : fields.kind = typeString
  · rw [Fields.value_string _ hstring] at hjson
    obtain ⟨str, hstr, rfl⟩ := Option.map_eq_some_iff.mp hjson
    rw [if_pos hstring, hstr]
    exact ⟨_, rfl, .string str.chars, .string str.chars,
      Derives.string (quoted_escapedText (hplain.valuestring str hstr))⟩
  rw [if_neg hstring]
  by_cases harray : fields.kind = typeArray
  · rw [Fields.value_array _ harray] at hjson
    obtain ⟨values, hvalues, rfl⟩ := Option.map_eq_some_iff.mp hjson
    rw [if_pos harray]
    exact array_said (hchild values hvalues)
      (fun hnull => Item.values_of_isNull hnull hvalues) depth
  rw [if_neg harray]
  by_cases hobject : fields.kind = typeObject
  · rw [Fields.value_object _ hobject] at hjson
    obtain ⟨members, hmembers, rfl⟩ := Option.map_eq_some_iff.mp hjson
    obtain ⟨values, hvalues, hmembers⟩ := Option.bind_eq_some_iff.mp hmembers
    rw [if_pos hobject]
    exact object_said (hchild values hvalues) hmembers
      (fun hnull => Item.values_of_isNull hnull hvalues) depth
  · exfalso
    simp [Fields.value, hnull, hfalse, htrue, hnumber, hstring, harray, hobject] at hjson

theorem chain_printed (fmt : Bool) {item : Item D} (hplain : item.Plain)
    {values : List (Option (List UInt8) × Value D)} (hvalues : item.values = some values) :
    ChainPrinted fmt item values := by
  induction item generalizing values with
  | null =>
      obtain rfl := Option.some.inj hvalues
      refine ⟨fun depth => ⟨[], rfl, nofun, List.Forall₂.nil⟩,
        fun depth members hmembers => ?_⟩
      obtain rfl := Option.some.inj hmembers
      exact ⟨[], rfl, nofun, List.Forall₂.nil⟩
  | node addr fields child next ihchild ihnext =>
      obtain ⟨hfields, hchild, hnext⟩ := hplain
      rw [Item.values] at hvalues
      obtain ⟨json, hjson, hvalues⟩ := Option.bind_eq_some_iff.mp hvalues
      obtain ⟨rest, hrest, hvalues⟩ := Option.bind_eq_some_iff.mp hvalues
      obtain rfl := Option.some.inj hvalues
      have hprinted := ihnext hnext hrest
      have hvalue := derives_fields fmt hfields (fun _ => ihchild hchild) hjson
      constructor
      · intro depth
        obtain ⟨text, htext, hderives⟩ := hvalue depth
        obtain ⟨texts, htexts, -, hall⟩ := hprinted.elements depth
        refine ⟨text :: texts, ?_, fun _ => List.cons_ne_nil _ _, List.Forall₂.cons hderives hall⟩
        rw [elementTexts, htext, htexts]
        rfl
      · intro depth members hmembers
        rw [List.mapM_cons] at hmembers
        obtain ⟨member, hmember, hmembers⟩ := Option.bind_eq_some_iff.mp hmembers
        obtain ⟨others, hothers, hmembers⟩ := Option.bind_eq_some_iff.mp hmembers
        obtain rfl := Option.some.inj hmembers
        obtain ⟨name, hname, rfl⟩ := Option.map_eq_some_iff.mp hmember
        obtain ⟨str, hstr, rfl⟩ := Option.map_eq_some_iff.mp hname
        obtain ⟨text, htext, hderives⟩ := hvalue depth
        obtain ⟨texts, htexts, -, hall⟩ := hprinted.members depth others hothers
        refine ⟨(quotedText str.chars, text) :: texts, ?_, fun _ => List.cons_ne_nil _ _,
          List.Forall₂.cons ⟨rfl, hfields.string str hstr, hderives⟩ hall⟩
        rw [memberTexts, htext, htexts, hstr]
        rfl

/-- What is printed of a tree is a JSON text of its value. -/
theorem printed_text_is_json (fmt : Bool) {addr : Nat} {fields : Fields D} {child next : Item D}
    (hplain : (Item.node addr fields child next).Plain) {json : Value D}
    (hjson : fields.value child.values = some json) (depth : Nat) :
    ∃ text, (Item.node addr fields child next).text fmt depth = some text ∧ SaidBy json text :=
  derives_fields fmt hplain.1 (fun _ => chain_printed fmt hplain.2.1) hjson depth

/-- What is printed of an item is read back, and the new tree has this value. -/
def ReadBack (hex : HexScan) (print : Item D → Allocating (Option Str)) (item : Item D)
    (json : Value D) (ledger : Ledger) : Prop :=
  ∃ (str : Str) (printed final : Ledger) (parsed : Parsed D),
    print item ledger = some (some str, printed) ∧
    cJSONParse hex str.chars printed = some (parsed, final) ∧
    parsed.root.values = some [(none, json)]

theorem readBack_printValue [Doubles.Short D] (hex : HexScan) (fmt : Bool) {addr : Nat}
    {fields : Fields D} {child next : Item D} (hplain : (Item.node addr fields child next).Plain)
    {json : Value D} (hjson : fields.value child.values = some json)
    (hroom : fmt = true → (Item.node addr fields child next).isEmptyObject = false)
    {ledger : Ledger} (hgenerous : ledger.Generous) :
    ReadBack hex (fun item => printValue fmt item 0)
      (.node addr fields child next) json ledger := by
  obtain ⟨text, htext, other, halike, hderives⟩ := printed_text_is_json fmt hplain hjson 0
  have hinside : ¬(fmt = true ∧ (Item.node addr fields child next).isEmptyObject = true ∧
      ledger.granted ledger.calls = true) := fun ⟨hfmt, hempty, _⟩ =>
    Bool.false_ne_true ((hroom hfmt).symm.trans hempty)
  obtain ⟨ret, printed, owned, hprint, hgranted, -, -, hret⟩ := print_ends hinside
  have hgenerous' : printed.Generous := fun call => (congrFun hgranted call).trans (hgenerous call)
  cases ret with
  | none =>
      rcases hret with hnone | ⟨call, hrefused⟩
      · exact absurd (hnone.symm.trans htext) (Option.some_ne_none text).symm
      · exact absurd (hrefused.symm.trans (hgenerous call)) Bool.false_ne_true
  | some str =>
      obtain rfl : str.chars = text := Option.some.inj (hret.symm.trans htext)
      obtain ⟨parsed, final, hparse, -, value, hvalues, hread, -⟩ :=
        cJSONParseWithOpts_gives (D := D) hex blank_nil hderives blank_nil false printed hgenerous'
      rw [List.nil_append, List.append_nil] at hparse
      obtain rfl : json = value := Phrase.value.inj
        (halike.unique (fun _ _ _ hprinted hnumber => hprinted.readFrom hnumber) hread)
      exact ⟨str, printed, final, parsed, hprint, hparse, hvalues⟩

/-- A tree with a value, whose numbers are of type `int`, is printed and read back: as long
as there is memory the new tree has the same value. Only an object without members
cannot be printed with format. -/
theorem print_then_parse [Doubles.Short D] (hex : HexScan) {addr : Nat} {fields : Fields D}
    {child next : Item D} (hplain : (Item.node addr fields child next).Plain) {json : Value D}
    (hjson : fields.value child.values = some json) {ledger : Ledger}
    (hgenerous : ledger.Generous) :
    ((Item.node addr fields child next).isEmptyObject = false →
      ReadBack hex cJSONPrint (.node addr fields child next) json ledger) ∧
    ReadBack hex cJSONPrintUnformatted (.node addr fields child next) json ledger :=
  ⟨fun hroom => readBack_printValue hex true hplain hjson (fun _ => hroom) hgenerous,
    readBack_printValue hex false hplain hjson nofun hgenerous⟩

/-- An object with a number in it. -/
def answer : Item ℚ :=
  .node 0
    { type := typeObject
      valuestring := none
      valueint := 0
      valuedouble := 0
      string := none }
    (.node 1
      { type := typeNumber
        valuestring := none
        valueint := 42
        valuedouble := 42
        string := some ⟨2, ascii ['n']⟩ }
      .null .null)
    .null

theorem print_then_parse_answer :
    ReadBack leadingDigits cJSONPrint answer (.object [(ascii ['n'], .number 42)])
      (Ledger.empty fun _ => true) ∧
    ReadBack leadingDigits cJSONPrintUnformatted answer (.object [(ascii ['n'], .number 42)])
      (Ledger.empty fun _ => true) := by
  have hplain : answer.Plain := by
    refine ⟨⟨?_, ?_, ?_⟩, ⟨⟨?_, ?_, ?_⟩, trivial, trivial⟩, trivial⟩
    · decide
    · decide
    · decide
    · exact fun _ => rfl
    · decide
    · decide
  have hgenerous : (Ledger.empty fun _ => true).Generous := fun _ => rfl
  obtain ⟨hformatted, hunformatted⟩ := print_then_parse leadingDigits hplain rfl hgenerous
  exact ⟨hformatted (by decide), hunformatted⟩

end Trees

end McuProxy.Json
