/-
# What the printer prints, and where it leaves its buffer

The text of an item is a function of its tree alone. The printer either returns this
text in a block of its own, with everything else given back, or returns nothing; then
a request was refused, or there is an item of no known type in the tree.

The one buffer that is too short belongs to an object without members. It is made for
one tab less than its depth, and at depth zero there is no tab less than none: with
format the null character behind `{\n}` is stored behind the end. Below the root
every depth is at least one, so this can happen at the root only.
-/

import Mathlib.Data.List.TakeWhile
import Mathlib.Data.Nat.Digits.Lemmas
import McuProxy.Json.Print

namespace McuProxy.Json

open McuProxy.Math Allocating

section Texts

variable {D : Type} [Doubles D]

/-- The text of an item with these fields. -/
def fieldsText (fmt : Bool) (fields : Fields D) (empty : Bool) (elements : Nat → Option (List Text))
    (members : Nat → Option (List (Text × Text))) (depth : Nat) : Option Text :=
  if fields.kind = typeNull then some nullText
  else if fields.kind = typeFalse then some falseText
  else if fields.kind = typeTrue then some trueText
  else if fields.kind = typeNumber then
    some (if printsInt fields then decimal fields.valueint.toInt else doubleText fields.valuedouble)
  else if fields.kind = typeString then
    some (fields.valuestring.elim [] fun str => quotedText str.chars)
  else if fields.kind = typeArray then
    if empty then some [ch '[', ch ']'] else (elements (depth + 1)).map (arrayText fmt)
  else if fields.kind = typeObject then
    if empty then some (ch '{' :: ((if fmt then 10 :: tabs (depth - 1) else []) ++ [ch '}']))
    else (members (depth + 1)).map (objectText fmt (depth + 1))
  else none

mutual

/-- The texts of the children of an array. -/
def elementTexts (fmt : Bool) : Item D → Nat → Option (List Text)
  | .null, _ => some []
  | .node _ fields child next, depth => do
      let ret ← fieldsText fmt fields child.isNull (fun depth => elementTexts fmt child depth)
        (fun depth => memberTexts fmt child depth) depth
      let rets ← elementTexts fmt next depth
      return ret :: rets

/-- The names and texts of the children of an object. -/
def memberTexts (fmt : Bool) : Item D → Nat → Option (List (Text × Text))
  | .null, _ => some []
  | .node _ fields child next, depth => do
      let ret ← fieldsText fmt fields child.isNull (fun depth => elementTexts fmt child depth)
        (fun depth => memberTexts fmt child depth) depth
      let rets ← memberTexts fmt next depth
      return (fields.string.elim [] fun str => quotedText str.chars, ret) :: rets

end

/-- The text of an item, if it has one. -/
def Item.text (fmt : Bool) : Item D → Nat → Option Text
  | .null, _ => none
  | .node _ fields child _, depth =>
      fieldsText fmt fields child.isNull (fun depth => elementTexts fmt child depth)
        (fun depth => memberTexts fmt child depth) depth

end Texts

theorem digitText_length_le {n k : Nat} (hn : n < 10 ^ k) : (digitText n).length ≤ k := by
  rw [digitText, List.length_map, List.length_reverse]
  exact (Nat.digits_length_le_iff (by decide) n).mpr hn

theorem int32_bounds (i : Int32) : -2147483648 ≤ i.toInt ∧ i.toInt ≤ 2147483647 :=
  ⟨Int32.minValue_le_toInt i, Int32.toInt_le i⟩

theorem decimal_length_lt (i : Int32) : (decimal i.toInt).length < 21 := by
  have hbounds := int32_bounds i
  have hsmall : i.toInt.natAbs < 10 ^ 10 := by omega
  have hdigits := digitText_length_le hsmall
  rw [decimal, List.length_append]
  split_ifs <;> simp only [List.length_cons, List.length_nil] <;> omega

theorem doubleText_length_lt {D : Type} [Doubles D] [Doubles.Short D] (d : D) :
    (doubleText d).length < 64 := by
  unfold doubleText
  split_ifs with hwhole hexponent
  · exact Nat.lt_succ_of_le (Doubles.Short.wholeText_le d hwhole.2)
  · exact Nat.lt_succ_of_le (Doubles.Short.exponentText_le d)
  · refine Nat.lt_succ_of_le (Doubles.Short.fixedText_le d ?_)
    exact Bool.eq_false_iff.mpr fun hlarge => hexponent (.inr hlarge)

theorem escapeText_length_le (token : UInt8) :
    (escapeText token).length + 1 ≤ if token ∈ marked then 2 else 6 := by
  by_cases hmarked : token ∈ marked
  · have hall : ∀ token ∈ marked, (escapeText token).length + 1 ≤ 2 := by decide +kernel
    rw [if_pos hmarked]
    exact hall token hmarked
  · rw [if_neg hmarked]
    unfold escapeText
    split_ifs <;> simp

/-- The second loop stores what the first one counts. -/
theorem escapedText_length_le (str : List UInt8) :
    (escapedText str).length ≤ printedLength str := by
  induction str with
  | nil => exact le_rfl
  | cons token str ih =>
      rw [escapedText, printedLength]
      split_ifs with hzero hplain hmarked hcontrol hmarked hcontrol
      · exact le_rfl
      · rw [List.length_cons]; omega
      · rw [List.length_cons]; omega
      · rw [List.length_cons]; omega
      · have hle := escapeText_length_le token
        rw [if_pos hmarked] at hle
        rw [List.length_cons, List.length_append]
        omega
      · have hle := escapeText_length_le token
        rw [if_neg hmarked] at hle
        rw [List.length_cons, List.length_append]
        omega
      · exfalso
        have hge : 31 < token := by
          rw [UInt8.lt_iff_toNat_lt] at hcontrol ⊢
          change ¬token.toNat < 32 at hcontrol
          change 31 < token.toNat
          omega
        have hnot : token ≠ ch '"' ∧ token ≠ ch '\\' := by
          constructor <;> rintro rfl <;> exact hmarked (by decide)
        exact hplain ⟨hge, hnot⟩

theorem quotedText_length_lt (str : List UInt8) :
    (quotedText str).length < printedLength str + 3 := by
  have hle := escapedText_length_le str
  simp only [quotedText, List.length_cons, List.length_append, List.length_nil]
  omega

theorem arrayText_length_lt (fmt : Bool) (texts : List Text) :
    (arrayText fmt texts).length <
      5 + (texts.map fun ret => ret.length + 2 + if fmt then 1 else 0).sum := by
  have hle : (elementsText fmt texts).length ≤
      (texts.map fun ret => ret.length + 2 + if fmt then 1 else 0).sum := by
    induction texts with
    | nil => exact le_rfl
    | cons ret texts ih =>
        cases texts with
        | nil =>
            rw [elementsText, List.map_singleton, List.sum_singleton]
            omega
        | cons ret' texts =>
            rw [elementsText, List.map_cons, List.sum_cons]
            cases fmt <;> simp only [List.length_append, List.length_cons] at ih ⊢ <;>
              simp at ih ⊢ <;> omega
  rw [arrayText]
  simp only [List.length_cons, List.length_append, List.length_nil]
  omega

theorem objectText_length_lt (fmt : Bool) (depth : Nat) (texts : List (Text × Text)) :
    (objectText fmt depth texts).length < 7 + (if fmt then depth else 0) + (texts.map fun ret =>
      ret.2.length + ret.1.length + 2 + if fmt then 2 + depth else 0).sum := by
  have hle : (membersText fmt depth texts).length ≤ (texts.map fun ret =>
      ret.2.length + ret.1.length + 2 + if fmt then 2 + depth else 0).sum := by
    induction texts with
    | nil => exact le_rfl
    | cons ret texts ih =>
        have hcomma : (if texts = [] then [] else [ch ',']).length ≤ 1 := by
          split_ifs <;> simp
        rw [membersText, List.map_cons, List.sum_cons]
        cases fmt <;> simp [tabs] at ih ⊢ <;> omega
  rw [objectText]
  cases fmt <;> simp [tabs] at hle ⊢ <;> omega

section Printing

variable {granted : Nat → Bool}

/-- A text in a block of its own. Where nothing is returned there is no text, or a request
was refused. -/
def Printed (granted : Nat → Bool) (text : Option Text) (ret : Option Str)
    (owned : Multiset Nat) : Prop :=
  owned = strBlocks ret ∧ match ret with
    | some str => text = some str.chars
    | none => text = none ∨ ∃ call, granted call = false

theorem fill_spec {size : Nat} {chars : Text} (hfits : chars.length < size) (addr : Nat) :
    Triple granted (fill size addr chars) {addr} fun str owned =>
      str = ⟨addr, chars⟩ ∧ owned = {addr} := by
  rw [fill, if_pos hfits]
  exact Triple.pure ⟨rfl, rfl⟩

theorem buffer_spec {size : Nat} {chars : Text} (hfits : chars.length < size) :
    Triple granted (buffer size chars) 0 (Printed granted (some chars)) := by
  refine Triple.malloc_bind (fun hrefused => Triple.pure ⟨rfl, .inr hrefused⟩) fun addr => ?_
  rw [add_zero]
  refine (fill_spec hfits addr).bind ?_
  rintro _ _ ⟨rfl, rfl⟩
  exact Triple.pure ⟨rfl, rfl⟩

theorem strdup_spec {str : List UInt8} (hstr : 0 ∉ str) :
    Triple granted (strdup str) 0 (Printed granted (some str)) := by
  have hwhole : str.takeWhile (· != 0) = str :=
    List.takeWhile_eq_self_iff.mpr fun c hc => bne_iff_ne.mpr fun hzero => hstr (hzero ▸ hc)
  rw [strdup, hwhole]
  exact buffer_spec (Nat.lt_succ_self _)

theorem printStringPtr_spec (str : Option Str) :
    Triple granted (printStringPtr str) 0
      (Printed granted (some (str.elim [] fun str => quotedText str.chars))) := by
  cases str with
  | none => exact strdup_spec (List.not_mem_nil)
  | some str => exact buffer_spec (quotedText_length_lt str.chars)

theorem freeAll_spec (strs : List (Option Str)) :
    Triple granted (freeAll strs) (strs.map strBlocks).sum fun _ owned => owned = 0 := by
  induction strs with
  | nil => exact Triple.pure rfl
  | cons str strs ih =>
      change Triple granted (freeStr str >>= fun _ => freeAll strs) _ _
      rw [List.map_cons, List.sum_cons]
      exact Triple.spend (freeStr_spec str) ih

/-- All of the texts, or what there is of them. -/
def AllPrinted {α : Type} (granted : Nat → Bool) (texts : Option (List α))
    (given : List (Option Str)) (printed : List α) (owned : Multiset Nat) : Prop :=
  owned = (given.map strBlocks).sum ∧
    if given.all Option.isSome then texts = some printed
    else texts = none ∨ ∃ call, granted call = false

theorem freeArrays_spec (arrays : List Nat) :
    Triple granted (arrays.forM free) arrays fun _ owned => owned = 0 := by
  induction arrays with
  | nil => exact Triple.pure rfl
  | cons block arrays ih =>
      change Triple granted (free block >>= fun _ => arrays.forM free) _ _
      rw [← Multiset.cons_coe, ← Multiset.singleton_add]
      exact Triple.spend Triple.free ih

/-- A text is composed if all of its parts are there, and all the parts are given back. -/
theorem compose_spec {α : Type} {texts : Option (List α)} {given : List (Option Str)}
    {printed : List α} (arrays : List Nat) {make : List α → Text} {len : Nat}
    (hfits : (make printed).length < len) {owned : Multiset Nat}
    (hprinted : AllPrinted granted texts given printed owned) :
    Triple granted (compose given arrays len (make printed)) (owned + arrays)
      (Printed granted (texts.map make)) := by
  obtain ⟨rfl, hall⟩ := hprinted
  have hnothing : (texts.map make = none ∨ ∃ call, granted call = false) →
      Triple granted (do
        freeAll given
        arrays.forM free
        return none) ((given.map strBlocks).sum + arrays) (Printed granted (texts.map make)) := by
    intro hnone
    refine Triple.spend (freeAll_spec given) ((freeArrays_spec arrays).bind ?_)
    rintro - _ rfl
    exact Triple.pure ⟨rfl, hnone⟩
  rw [compose]
  split_ifs at hall ⊢
  · refine Triple.malloc_bind (fun hrefused => hnothing (.inr hrefused)) fun addr => ?_
    refine ((fill_spec hfits addr).frame _).bind ?_
    rintro _ _ ⟨own, ⟨rfl, rfl⟩, rfl⟩
    rw [add_comm, add_assoc]
    refine Triple.spend (freeAll_spec given) (((freeArrays_spec arrays).frame {addr}).bind ?_)
    rintro - _ ⟨own, rfl, rfl⟩
    exact Triple.pure ⟨zero_add _, by rw [hall]; rfl⟩
  · refine hnothing (hall.imp (fun hnone => ?_) id)
    rw [hnone]
    rfl

theorem printArray_spec {fmt empty : Bool} {elements : Nat → Allocating (List (Option Str))}
    {depth : Nat} {texts : Option (List Text)}
    (helements : empty = false → Triple granted (elements (depth + 1)) 0 fun rets owned =>
      AllPrinted granted texts rets (rets.filterMap fun ret => ret.map Str.chars) owned) :
    Triple granted (printArray fmt empty elements depth) 0
      (Printed granted (if empty then some [ch '[', ch ']'] else texts.map (arrayText fmt))) := by
  cases empty with
  | true => exact buffer_spec (by decide)
  | false =>
      refine Triple.malloc_bind (fun hrefused => Triple.pure ⟨rfl, .inr hrefused⟩) fun entries => ?_
      have hread := (helements rfl).frame {entries}
      rw [zero_add] at hread
      rw [add_zero]
      refine hread.bind ?_
      rintro rets _ ⟨own, hown, rfl⟩
      exact compose_spec [entries] (arrayText_length_lt fmt _) hown

theorem printObject_spec {fmt empty : Bool}
    {members : Nat → Allocating (List (Option Str × Option Str))} {depth : Nat}
    {texts : Option (List (Text × Text))} (hroom : empty = true → fmt = true → 0 < depth)
    (hmembers : empty = false → Triple granted (members (depth + 1)) 0 fun rets owned =>
      AllPrinted granted texts (rets.flatMap fun ret => [ret.1, ret.2]) (rets.filterMap memberChars)
        owned) :
    Triple granted (printObject fmt empty members depth) 0
      (Printed granted (if empty then
        some (ch '{' :: ((if fmt then 10 :: tabs (depth - 1) else []) ++ [ch '}']))
        else texts.map (objectText fmt (depth + 1)))) := by
  cases empty with
  | true =>
      refine buffer_spec ?_
      cases fmt with
      | false => exact (by decide : 2 < 3)
      | true =>
          have hdepth := hroom rfl rfl
          simp only [if_true, tabs, List.length_cons, List.length_append, List.length_replicate,
            List.length_nil]
          omega
  | false =>
      refine Triple.malloc_bind (fun hrefused => Triple.pure ⟨rfl, .inr hrefused⟩) fun entries => ?_
      refine Triple.malloc_bind (fun hrefused => ?_) fun names => ?_
      · rw [add_zero]
        refine Triple.free.bind ?_
        rintro - _ rfl
        exact Triple.pure ⟨rfl, .inr hrefused⟩
      · have hread := (hmembers rfl).frame ({names} + {entries})
        rw [zero_add] at hread
        rw [add_zero]
        refine hread.bind ?_
        rintro rets _ ⟨own, hown, rfl⟩
        exact compose_spec [names, entries] (objectText_length_lt fmt (depth + 1) _) hown

section Items

variable {D : Type} [Doubles D] [Doubles.Short D]

theorem printNumber_spec (fields : Fields D) :
    Triple granted (printNumber fields) 0 (Printed granted (some
      (if printsInt fields then decimal fields.valueint.toInt
        else doubleText fields.valuedouble))) := by
  rw [printNumber]
  split_ifs
  · exact buffer_spec (decimal_length_lt fields.valueint)
  · exact buffer_spec (doubleText_length_lt fields.valuedouble)

/-- The texts that the loop of `print_array` collects. -/
def ElementsPrinted (granted : Nat → Bool) (texts : Option (List Text)) (rets : List (Option Str)) :
    Multiset Nat → Prop :=
  AllPrinted granted texts rets (rets.filterMap fun ret => ret.map Str.chars)

/-- The names and texts that the loop of `print_object` collects. -/
def MembersPrinted (granted : Nat → Bool) (texts : Option (List (Text × Text)))
    (rets : List (Option Str × Option Str)) : Multiset Nat → Prop :=
  AllPrinted granted texts (rets.flatMap fun ret => [ret.1, ret.2]) (rets.filterMap memberChars)

omit [Doubles D] [Doubles.Short D] in
/-- An object without members at depth zero. -/
def rootOverflows (fmt : Bool) (fields : Fields D) (empty : Bool) (depth : Nat) : Bool :=
  fmt && empty && fields.kind == typeObject && depth == 0

theorem printFields_spec {fmt : Bool} {fields : Fields D} {empty : Bool} {depth : Nat}
    {elements : Nat → Allocating (List (Option Str))}
    {members : Nat → Allocating (List (Option Str × Option Str))}
    {elementTexts : Nat → Option (List Text)} {memberTexts : Nat → Option (List (Text × Text))}
    (hroom : rootOverflows fmt fields empty depth = false)
    (helements : empty = false → Triple granted (elements (depth + 1)) 0
      (ElementsPrinted granted (elementTexts (depth + 1))))
    (hmembers : empty = false → Triple granted (members (depth + 1)) 0
      (MembersPrinted granted (memberTexts (depth + 1)))) :
    Triple granted (printFields fmt fields empty elements members depth) 0
      (Printed granted (fieldsText fmt fields empty elementTexts memberTexts depth)) := by
  unfold printFields fieldsText
  by_cases hnull : fields.kind = typeNull
  · rw [if_pos hnull, if_pos hnull]
    exact strdup_spec (by decide)
  rw [if_neg hnull, if_neg hnull]
  by_cases hfalse : fields.kind = typeFalse
  · rw [if_pos hfalse, if_pos hfalse]
    exact strdup_spec (by decide)
  rw [if_neg hfalse, if_neg hfalse]
  by_cases htrue : fields.kind = typeTrue
  · rw [if_pos htrue, if_pos htrue]
    exact strdup_spec (by decide)
  rw [if_neg htrue, if_neg htrue]
  by_cases hnumber : fields.kind = typeNumber
  · rw [if_pos hnumber, if_pos hnumber]
    exact printNumber_spec fields
  rw [if_neg hnumber, if_neg hnumber]
  by_cases hstring : fields.kind = typeString
  · rw [if_pos hstring, if_pos hstring]
    exact printStringPtr_spec fields.valuestring
  rw [if_neg hstring, if_neg hstring]
  by_cases harray : fields.kind = typeArray
  · rw [if_pos harray, if_pos harray]
    exact printArray_spec helements
  rw [if_neg harray, if_neg harray]
  by_cases hobject : fields.kind = typeObject
  · rw [if_pos hobject, if_pos hobject]
    refine printObject_spec (fun hempty hfmt => Nat.pos_of_ne_zero fun hdepth => ?_) hmembers
    rw [rootOverflows, hempty, hfmt, hobject, hdepth] at hroom
    exact absurd hroom (by decide)
  · rw [if_neg hobject, if_neg hobject]
    exact Triple.pure ⟨rfl, .inl rfl⟩

omit [Doubles D] [Doubles.Short D] in
theorem rootOverflows_inside (fmt : Bool) (fields : Fields D) (empty : Bool) {depth : Nat}
    (hdepth : 0 < depth) : rootOverflows fmt fields empty depth = false := by
  rw [rootOverflows, beq_eq_false_iff_ne.mpr (Nat.pos_iff_ne_zero.mp hdepth), Bool.and_false]

omit [Doubles D] [Doubles.Short D] in
/-- One more text in front of those that were collected. -/
theorem AllPrinted.cons {α : Type} {text : Option α} {texts : Option (List α)}
    {start given : List (Option Str)} {begun printed : List α} {own owned : Multiset Nat}
    (hown : own = (start.map strBlocks).sum)
    (hbegun : if start.all Option.isSome then ∃ first, text = some first ∧ begun = [first]
      else text = none ∨ ∃ call, granted call = false)
    (hrest : AllPrinted granted texts given printed owned) :
    AllPrinted granted (text.bind fun first => texts.bind fun rest => some (first :: rest))
      (start ++ given) (begun ++ printed) (owned + own) := by
  obtain ⟨howned, hall⟩ := hrest
  refine ⟨?_, ?_⟩
  · rw [howned, hown, List.map_append, List.sum_append, add_comm]
  · rw [List.all_append]
    cases hstart : start.all Option.isSome with
    | false =>
        rw [hstart] at hbegun
        refine hbegun.imp (fun hnone => ?_) id
        rw [hnone]
        rfl
    | true =>
        rw [hstart] at hbegun
        obtain ⟨first, rfl, rfl⟩ := hbegun
        rw [Bool.true_and]
        split_ifs at hall ⊢
        · rw [hall]
          rfl
        · refine hall.imp (fun hnone => ?_) id
          rw [hnone]
          rfl

omit [Doubles D] [Doubles.Short D] in
/-- The name and the value of a member, each printed. -/
theorem memberChars_printed {name : Text} {text : Option Text} {str ret : Option Str}
    {own own' : Multiset Nat} (hstr : Printed granted (some name) str own)
    (hret : Printed granted text ret own') :
    if [str, ret].all Option.isSome then ∃ first, text.map (name, ·) = some first ∧
      (memberChars (str, ret)).toList = [first]
    else text.map (name, ·) = none ∨ ∃ call, granted call = false := by
  obtain ⟨-, hstr⟩ := hstr
  obtain ⟨-, hret⟩ := hret
  cases str with
  | none => exact .inr (hstr.resolve_left (Option.some_ne_none name))
  | some str =>
      cases ret with
      | none => exact hret.imp (fun hnone => by rw [hnone]; rfl) id
      | some ret =>
          refine ⟨(name, ret.chars), by rw [hret]; rfl, ?_⟩
          rw [Option.some.inj hstr]
          rfl

/-- The loops over the children of an array or of an object. The induction is on the tree,
with both loops at once, at any depth below the root. -/
theorem printChain_spec (fmt : Bool) (item : Item D) :
    (∀ depth, 0 < depth → Triple granted (printElements fmt item depth) 0
      (ElementsPrinted granted (elementTexts fmt item depth))) ∧
    ∀ depth, 0 < depth → Triple granted (printMembers fmt item depth) 0
      (MembersPrinted granted (memberTexts fmt item depth)) := by
  induction item with
  | null => exact ⟨fun _ _ => Triple.pure ⟨rfl, rfl⟩, fun _ _ => Triple.pure ⟨rfl, rfl⟩⟩
  | node addr fields child next ihchild ihnext =>
      have hfields : ∀ depth, 0 < depth → Triple granted
          (printFields fmt fields child.isNull (fun depth => printElements fmt child depth)
            (fun depth => printMembers fmt child depth) depth) 0
          (Printed granted (fieldsText fmt fields child.isNull
            (fun depth => elementTexts fmt child depth) (fun depth => memberTexts fmt child depth)
            depth)) :=
        fun depth hdepth => printFields_spec (rootOverflows_inside fmt fields child.isNull hdepth)
          (fun _ => ihchild.1 _ (Nat.succ_pos depth)) fun _ => ihchild.2 _ (Nat.succ_pos depth)
      constructor
      · intro depth hdepth
        rw [printElements, elementTexts]
        refine (hfields depth hdepth).bind ?_
        rintro (- | str) _ ⟨rfl, htext⟩
        · refine Triple.pure ⟨rfl, htext.imp (fun hnone => ?_) id⟩
          rw [hnone]
          rfl
        · have hrest := (ihnext.1 depth hdepth).frame (strBlocks (some str))
          rw [zero_add] at hrest
          refine hrest.bind ?_
          rintro rets _ ⟨own, hown, rfl⟩
          have hcons : AllPrinted granted _ ([some str] ++ rets) ([str.chars] ++ _) _ :=
            hown.cons (add_zero _).symm ⟨str.chars, htext, rfl⟩
          exact Triple.pure hcons
      · intro depth hdepth
        rw [printMembers, memberTexts]
        refine (printStringPtr_spec fields.string).bind ?_
        rintro str _ hstr
        obtain rfl := hstr.1
        have hvalue := (hfields depth hdepth).frame (strBlocks str)
        rw [zero_add] at hvalue
        refine hvalue.bind ?_
        rintro ret _ ⟨_, hret, rfl⟩
        obtain rfl := hret.1
        have hrest := (ihnext.2 depth hdepth).frame (strBlocks ret + strBlocks str)
        rw [zero_add] at hrest
        refine hrest.bind ?_
        rintro rets _ ⟨own, hown, rfl⟩
        have hblocks : strBlocks ret + strBlocks str = ([str, ret].map strBlocks).sum := by
          rw [List.map_cons, List.map_singleton, List.sum_cons, List.sum_singleton, add_comm]
        have hcons := hown.cons hblocks (memberChars_printed hstr hret)
        have hlist : ((str, ret) :: rets).filterMap memberChars =
            (memberChars (str, ret)).toList ++ rets.filterMap memberChars := by
          rw [List.filterMap_cons]
          cases memberChars (str, ret) <;> rfl
        refine Triple.pure ?_
        rw [MembersPrinted, hlist]
        rw [Option.bind_map] at hcons
        exact hcons

/-- The text of an item in a block of its own, with everything else given back. -/
theorem printValue_spec (fmt : Bool) (addr : Nat) (fields : Fields D) (child next : Item D)
    {depth : Nat} (hroom : rootOverflows fmt fields child.isNull depth = false) :
    Triple granted (printValue fmt (.node addr fields child next) depth) 0
      (Printed granted ((Item.node addr fields child next).text fmt depth)) :=
  printFields_spec hroom (fun _ => (printChain_spec fmt child).1 _ (Nat.succ_pos depth))
    fun _ => (printChain_spec fmt child).2 _ (Nat.succ_pos depth)

omit [Doubles.Short D] in
/-- Where the buffer of an object without members is too short, it is granted and
overflows. -/
theorem printValue_overflows {fmt : Bool} (addr : Nat) {fields : Fields D} {child : Item D}
    (next : Item D) {depth : Nat} (hroom : rootOverflows fmt fields child.isNull depth = true)
    (ledger : Ledger) :
    printValue fmt (.node addr fields child next) depth ledger =
      if ledger.granted ledger.calls then none else some (none, ledger.refuse) := by
  simp only [rootOverflows, Bool.and_eq_true, beq_iff_eq] at hroom
  obtain ⟨⟨⟨rfl, hempty⟩, hkind⟩, rfl⟩ := hroom
  have hvalue : printValue true (.node addr fields child next) 0 =
      buffer 3 (ch '{' :: (10 :: tabs 0 ++ [ch '}'])) := by
    rw [printValue, printFields, hkind, hempty]
    rfl
  rw [hvalue]
  change (malloc ledger).bind _ = _
  rw [malloc]
  split_ifs <;> rfl

end Items

end Printing

section Print

variable {D : Type} [Doubles D]

/-- An object without members. -/
def Item.isEmptyObject : Item D → Bool
  | .null => false
  | .node _ fields child _ => fields.kind == typeObject && child.isNull

omit [Doubles D] in
theorem rootOverflows_root (fmt : Bool) (addr : Nat) (fields : Fields D) (child next : Item D) :
    rootOverflows fmt fields child.isNull 0 =
      (fmt && (Item.node addr fields child next).isEmptyObject) := by
  rw [rootOverflows, Item.isEmptyObject, beq_self_eq_true, Bool.and_true, Bool.and_assoc,
    Bool.and_comm child.isNull]

theorem print_overflows {fmt : Bool} {item : Item D} {ledger : Ledger}
    (hroom : fmt = true ∧ item.isEmptyObject = true ∧ ledger.granted ledger.calls = true) :
    printValue fmt item 0 ledger = none := by
  obtain ⟨rfl, hempty, hgranted⟩ := hroom
  cases item with
  | null => exact absurd hempty Bool.false_ne_true
  | node addr fields child next =>
      rw [printValue_overflows _ _
        (by rw [rootOverflows_root true addr fields child next, hempty]; rfl), hgranted]
      rfl

theorem print_ends [Doubles.Short D] {fmt : Bool} {item : Item D} {ledger : Ledger}
    (hroom : ¬(fmt = true ∧ item.isEmptyObject = true ∧ ledger.granted ledger.calls = true)) :
    ∃ ret final owned, printValue fmt item 0 ledger = some (ret, final) ∧
      final.granted = ledger.granted ∧ final.live = owned + ledger.live ∧
        Printed ledger.granted (item.text fmt 0) ret owned := by
  cases item with
  | null => exact ⟨none, ledger, 0, rfl, rfl, (zero_add _).symm, rfl, .inl rfl⟩
  | node addr fields child next =>
      cases hroot : rootOverflows fmt fields child.isNull 0 with
      | false =>
          obtain ⟨ret, final, owned, hrun, hgranted, hlive, hprinted⟩ :=
            printValue_spec fmt addr fields child next hroot ledger ledger.live rfl
              (zero_add _).symm
          exact ⟨ret, final, owned, hrun, hgranted, hlive, hprinted⟩
      | true =>
          have hrun := printValue_overflows addr next hroot ledger
          rw [rootOverflows_root fmt addr fields child next, Bool.and_eq_true] at hroot
          have hrefused : ledger.granted ledger.calls = false :=
            Bool.eq_false_iff.mpr fun hgranted => hroom ⟨hroot.1, hroot.2, hgranted⟩
          rw [hrefused] at hrun
          exact ⟨none, ledger.refuse, 0, hrun, rfl, (zero_add _).symm, rfl, .inr ⟨_, hrefused⟩⟩

/-- Printing leaves a buffer exactly where an object without members is printed with
format, and the buffer is granted. Otherwise there is the text of the item in a block
of its own, and nothing else is allocated; or there is nothing, since the item has no
text or a request was refused. -/
theorem print_stays_inside [Doubles.Short D] (fmt : Bool) (item : Item D) (ledger : Ledger) :
    (printValue fmt item 0 ledger = none ↔
      fmt = true ∧ item.isEmptyObject = true ∧ ledger.granted ledger.calls = true) ∧
    ∀ ret final, printValue fmt item 0 ledger = some (ret, final) →
      final.live = strBlocks ret + ledger.live ∧
      (∀ str ∈ ret, item.text fmt 0 = some str.chars) ∧
      (ret = none → item.text fmt 0 = none ∨ ∃ call, ledger.granted call = false) := by
  by_cases hroom : fmt = true ∧ item.isEmptyObject = true ∧ ledger.granted ledger.calls = true
  · have hrun := print_overflows hroom
    refine ⟨iff_of_true hrun hroom, fun ret final hsome => ?_⟩
    exact absurd (hsome.symm.trans hrun) (Option.some_ne_none _)
  · obtain ⟨ret, final, owned, hrun, -, hlive, rfl, htext⟩ := print_ends hroom
    refine ⟨iff_of_false (by rw [hrun]; exact Option.some_ne_none _) hroom, ?_⟩
    intro ret' final' hrun'
    obtain ⟨rfl, rfl⟩ := Prod.mk.inj (Option.some.inj (hrun.symm.trans hrun'))
    refine ⟨hlive, ?_, ?_⟩
    · rintro str ⟨⟩
      exact htext
    · rintro rfl
      exact htext

/-- A number with a fraction. -/
def halves : Item ℚ :=
  .node 0
    { type := typeNumber
      valuestring := none
      valueint := 2
      valuedouble := 5 / 2
      string := none }
    .null .null

theorem print_stays_inside_halves :
    (printValue true halves 0 (Ledger.empty fun _ => true) = none ↔
      true = true ∧ halves.isEmptyObject = true ∧
        (Ledger.empty fun _ => true).granted (Ledger.empty fun _ => true).calls = true) ∧
    ∀ ret final, printValue true halves 0 (Ledger.empty fun _ => true) = some (ret, final) →
      final.live = strBlocks ret + (Ledger.empty fun _ => true).live ∧
      (∀ str ∈ ret, halves.text true 0 = some str.chars) ∧
      (ret = none → halves.text true 0 = none ∨
        ∃ call, (Ledger.empty fun _ => true).granted call = false) :=
  print_stays_inside true halves (Ledger.empty fun _ => true)

end Print

end McuProxy.Json
