/-
# The parser stays inside its text

The parser is given any text, not only JSON. Two passes over a string have to agree:
where an escape of four digits is cut short by the end of the string, the second pass
jumps over the quote at which the first one stopped, and goes on behind it into a
buffer that has no room. Where every such escape has its four characters, neither the
text nor a buffer is left.

Every item and every string the parser allocates is owned by the tree it returns, and
nothing is left behind when it fails, whichever requests for memory are refused.
-/

import McuProxy.Json.Parse

namespace McuProxy.Json

open McuProxy.Math Allocating

/-! ## Escapes that are complete -/

/-- Neither a quote nor a backslash nor the end. -/
def isPlain (c : UInt8) : Bool := c != ch '"' && c != 0 && c != ch '\\'

/-- Behind an opening quote, every backslash has the characters that belong to it before
the string ends. -/
def wellEscaped : Text → Bool
  | [] => true
  | c :: text =>
      if c = ch '"' ∨ c = 0 then true
      else if c ≠ ch '\\' then wellEscaped text
      else
        match text with
        | [] => false
        | e :: text =>
            if e ≠ ch 'u' then wellEscaped text
            else
              match text with
              | a :: b :: c :: d :: text =>
                  isPlain a && isPlain b && isPlain c && isPlain d && wellEscaped text
              | _ => false

/-- Behind every quote of a text the escapes are complete. -/
def EscapesComplete (text : Text) : Prop :=
  ∀ body, (ch '"' :: body) <:+ text → wellEscaped body = true

instance (text : Text) : Decidable (EscapesComplete text) :=
  decidable_of_iff (∀ rest ∈ text.tails, rest.head? = some (ch '"') → wellEscaped rest.tail = true)
    ⟨fun hall body hbody => hall _ ((List.mem_tails _ _).mpr hbody) rfl,
      fun htext rest hrest hhead => by
        obtain ⟨body, rfl⟩ : ∃ body, rest = ch '"' :: body := List.head?_eq_some_iff.mp hhead
        exact htext body ((List.mem_tails _ _).mp hrest)⟩

theorem EscapesComplete.of_suffix {text rest : Text} (htext : EscapesComplete text)
    (hrest : rest <:+ text) : EscapesComplete rest :=
  fun body hbody => htext body (hbody.trans hrest)

theorem isPlain_iff (c : UInt8) : isPlain c = true ↔ c ≠ ch '"' ∧ c ≠ 0 ∧ c ≠ ch '\\' := by
  simp [isPlain, and_assoc]

theorem wellEscaped_plain {c : UInt8} (hc : isPlain c = true) (rest : Text) :
    wellEscaped (c :: rest) = wellEscaped rest := by
  obtain ⟨hquote, hzero, hslash⟩ := (isPlain_iff c).mp hc
  rw [wellEscaped.eq_def]
  simp [hquote, hzero, hslash]

theorem wellEscaped_escape {e : UInt8} (he : e ≠ ch 'u') (rest : Text) :
    wellEscaped (ch '\\' :: e :: rest) = wellEscaped rest := by
  rw [wellEscaped.eq_def]
  simp [he, show ¬(ch '\\' = ch '"' ∨ ch '\\' = 0) by decide]

/-- How a text with complete escapes begins. -/
theorem wellEscaped_cases {text : Text} (htext : wellEscaped text = true) :
    text = [] ∨
    (∃ c rest, text = c :: rest ∧ (c = ch '"' ∨ c = 0)) ∨
    (∃ c rest, text = c :: rest ∧ isPlain c = true ∧ wellEscaped rest = true) ∨
    (∃ e rest, text = ch '\\' :: e :: rest ∧ e ≠ ch 'u' ∧ wellEscaped rest = true) ∨
    (∃ a b c d rest, text = ch '\\' :: ch 'u' :: a :: b :: c :: d :: rest ∧
      (isPlain a = true ∧ isPlain b = true ∧ isPlain c = true ∧ isPlain d = true) ∧
      wellEscaped rest = true) := by
  match text with
  | [] => exact .inl rfl
  | c :: text =>
      right
      rw [wellEscaped.eq_def] at htext
      dsimp only at htext
      split_ifs at htext with hend hplain
      · exact .inl ⟨c, text, rfl, hend⟩
      · exact .inr (.inl ⟨c, text, rfl, (isPlain_iff c).mpr
          ⟨fun h => hend (.inl h), fun h => hend (.inr h), hplain⟩, htext⟩)
      · rw [not_not] at hplain
        subst hplain
        match text with
        | [] => exact absurd htext Bool.false_ne_true
        | e :: text =>
            by_cases hletter : e = ch 'u'
            · subst hletter
              match text with
              | a :: b :: c :: d :: text =>
                  simp only [ne_eq, not_true, if_false, Bool.and_eq_true] at htext
                  obtain ⟨⟨⟨⟨ha, hb⟩, hc⟩, hd⟩, hrest⟩ := htext
                  exact .inr (.inr (.inr ⟨a, b, c, d, text, rfl, ⟨ha, hb, hc, hd⟩, hrest⟩))
              | [] | [_] | [_, _] | [_, _, _] => simp at htext
            · simp only [ne_eq, hletter, not_false_eq_true, if_true] at htext
              exact .inr (.inr (.inl ⟨e, text, rfl, hletter, htext⟩))

/-! ## The two passes -/

section Passes

variable (hex : HexScan) (uc uc2 : UInt32)

theorem stringLength_plain {c : UInt8} (hc : isPlain c = true) (rest : Text) :
    stringLength (c :: rest) = (stringLength rest).map (· + 1) := by
  obtain ⟨hquote, hzero, hslash⟩ := (isPlain_iff c).mp hc
  rw [stringLength.eq_def]
  simp [hquote, hzero, hslash]

theorem stringLength_escape (e : UInt8) (rest : Text) :
    stringLength (ch '\\' :: e :: rest) = (stringLength rest).map (· + 1) := by
  rw [stringLength.eq_def]
  simp [show ¬(ch '\\' = ch '"' ∨ ch '\\' = 0) by decide]

theorem stringLength_unicode {a b c d : UInt8}
    (hplain : isPlain a = true ∧ isPlain b = true ∧ isPlain c = true ∧ isPlain d = true)
    (rest : Text) :
    stringLength (ch '\\' :: ch 'u' :: a :: b :: c :: d :: rest) =
      (stringLength rest).map (· + 5) := by
  obtain ⟨ha, hb, hc, hd⟩ := hplain
  rw [stringLength_escape, stringLength_plain ha, stringLength_plain hb, stringLength_plain hc,
    stringLength_plain hd]
  cases stringLength rest <;> rfl

theorem copyString_plain {c : UInt8} (hc : isPlain c = true) (rest : Text) :
    copyString hex uc uc2 (c :: rest) = (copyString hex uc uc2 rest).map (store [c]) := by
  obtain ⟨hquote, hzero, hslash⟩ := (isPlain_iff c).mp hc
  rw [copyString.eq_def]
  simp [hquote, hzero, hslash]

theorem copyString_escape {e : UInt8} (he : e ≠ ch 'u') (rest : Text) :
    copyString hex uc uc2 (ch '\\' :: e :: rest) =
      (copyString hex uc uc2 rest).map (store [escaped e]) := by
  rw [copyString.eq_def]
  simp [he, show ¬(ch '\\' = ch '"' ∨ ch '\\' = 0) by decide]

theorem transcode_length_le : (transcode uc).1.length ≤ 4 := by
  unfold transcode
  split <;> simp

/-- What is made of four characters behind `\u`: nothing, the bytes of a code point, or
of one that the next six characters complete. -/
theorem copyString_unicode (a b c d : UInt8) (rest : Text) :
    ∃ number,
      copyString hex uc uc2 (ch '\\' :: ch 'u' :: a :: b :: c :: d :: rest) =
          copyString hex number uc2 rest ∨
      copyString hex uc uc2 (ch '\\' :: ch 'u' :: a :: b :: c :: d :: rest) =
          (copyString hex (transcode number).2 uc2 rest).map (store (transcode number).1) ∨
      ∃ low, rest = ch '\\' :: ch 'u' :: low ∧
        ((∀ e f g h rest, low ≠ e :: f :: g :: h :: rest) ∨
          ∃ e f g h last number2, low = e :: f :: g :: h :: last ∧
            (copyString hex uc uc2 (ch '\\' :: ch 'u' :: a :: b :: c :: d :: rest) =
                copyString hex number number2 last ∨
              copyString hex uc uc2 (ch '\\' :: ch 'u' :: a :: b :: c :: d :: rest) =
                (copyString hex (transcode number).2 number2 last).map
                  (store (transcode number).1))) := by
  have hslash : ¬(ch '\\' = ch '"' ∨ ch '\\' = 0) := by decide
  rw [copyString.eq_def]
  simp only [hslash, ne_eq, not_true, if_false]
  generalize (hex.scan (a :: b :: c :: d :: rest)).getD uc = first
  split_ifs with hlow hhigh
  · exact ⟨first, .inl rfl⟩
  · match rest with
    | p :: q :: low =>
        simp only
        split_ifs with hpair
        · obtain ⟨rfl, rfl⟩ := hpair
          match low with
          | e :: f :: g :: h :: last =>
              simp only
              generalize (hex.scan (e :: f :: g :: h :: last)).getD uc2 = second
              split_ifs with hsecond
              · exact ⟨first, .inr (.inr ⟨_, rfl, .inr ⟨e, f, g, h, last, second, rfl, .inl rfl⟩⟩)⟩
              · exact ⟨joinSurrogates first second,
                  .inr (.inr ⟨_, rfl, .inr ⟨e, f, g, h, last, second, rfl, .inr rfl⟩⟩)⟩
          | [] | [_] | [_, _] | [_, _, _] =>
              exact ⟨first, .inr (.inr ⟨_, rfl, .inl (by simp)⟩)⟩
        · exact ⟨first, .inl rfl⟩
    | [] | [_] => exact ⟨first, .inl rfl⟩
  · exact ⟨first, .inr (.inl rfl)⟩

/-- The second pass stores no more than the first one counts, and ends inside the
text. -/
theorem copyString_fits {text : Text} (htext : wellEscaped text = true) :
    ∃ len, stringLength text = some len ∧
      ∀ uc uc2, ∃ out rest, copyString hex uc uc2 text = some (out, rest) ∧
        out.length ≤ len ∧ rest <:+ text := by
  induction hn : text.length using Nat.strong_induction_on generalizing text with
  | _ n ih =>
      subst hn
      rcases wellEscaped_cases htext with rfl | ⟨c, rest, rfl, hend⟩ | ⟨c, rest, rfl, hc, hrest⟩ |
          ⟨e, rest, rfl, he, hrest⟩ | ⟨a, b, c, d, rest, rfl, hplain, hrest⟩
      · exact ⟨0, rfl, fun uc uc2 => ⟨[], [], rfl, le_rfl, List.suffix_rfl⟩⟩
      · refine ⟨0, by rw [stringLength.eq_def]; exact if_pos hend, fun uc uc2 => ?_⟩
        exact ⟨[], c :: rest, by rw [copyString.eq_def]; exact if_pos hend, le_rfl, List.suffix_rfl⟩
      · obtain ⟨len, hlen, hcopy⟩ := ih rest.length (by simp) hrest rfl
        refine ⟨len + 1, by rw [stringLength_plain hc, hlen]; rfl, fun uc uc2 => ?_⟩
        obtain ⟨out, last, hout, hle, hlast⟩ := hcopy uc uc2
        refine ⟨c :: out, last, by rw [copyString_plain hex uc uc2 hc, hout]; rfl, ?_,
          hlast.trans (List.suffix_cons c rest)⟩
        exact Nat.succ_le_succ hle
      · obtain ⟨len, hlen, hcopy⟩ :=
          ih rest.length (by simp only [List.length_cons]; omega) hrest rfl
        refine ⟨len + 1, (stringLength_escape e rest).trans (congrArg _ hlen), fun uc uc2 => ?_⟩
        obtain ⟨out, last, hout, hle, hlast⟩ := hcopy uc uc2
        refine ⟨escaped e :: out, last, by rw [copyString_escape hex uc uc2 he, hout]; rfl, ?_,
          hlast.trans (List.suffix_append [ch '\\', e] rest)⟩
        exact Nat.succ_le_succ hle
      · obtain ⟨len, hlen, hcopy⟩ :=
          ih rest.length (by simp only [List.length_cons]; omega) hrest rfl
        have hwhole : rest <:+ ch '\\' :: ch 'u' :: a :: b :: c :: d :: rest :=
          List.suffix_append [ch '\\', ch 'u', a, b, c, d] rest
        refine ⟨len + 5, by rw [stringLength_unicode hplain, hlen]; rfl, fun uc uc2 => ?_⟩
        obtain ⟨number, hskip | hbytes | ⟨low, rfl, hlow⟩⟩ :=
          copyString_unicode hex uc uc2 a b c d rest
        · obtain ⟨out, last, hout, hle, hlast⟩ := hcopy number uc2
          exact ⟨out, last, hskip.trans hout, by omega, hlast.trans hwhole⟩
        · obtain ⟨out, last, hout, hle, hlast⟩ := hcopy (transcode number).2 uc2
          refine ⟨(transcode number).1 ++ out, last, by rw [hbytes, hout]; rfl, ?_,
            hlast.trans hwhole⟩
          have := transcode_length_le number
          rw [List.length_append]
          omega
        · rcases wellEscaped_cases hrest with hnil | ⟨c', rest', heq, hend⟩ |
              ⟨c', rest', heq, hc', -⟩ | ⟨e, rest', heq, he, -⟩ |
              ⟨e, f, g, h, last, heq, hplain', hlast⟩
          · exact absurd hnil (List.cons_ne_nil _ _)
          · obtain ⟨rfl, rfl⟩ := List.cons.inj heq
            exact absurd hend (by decide)
          · obtain ⟨rfl, rfl⟩ := List.cons.inj heq
            exact absurd hc' (by decide)
          · exact absurd (List.cons.inj (List.cons.inj heq).2).1.symm he
          · obtain rfl := (List.cons.inj (List.cons.inj heq).2).2
            obtain ⟨len', hlen', hcopy'⟩ := ih last.length (by simp; omega) hlast rfl
            have hfive : len = len' + 5 := by
              rw [stringLength_unicode hplain', hlen'] at hlen
              exact (Option.some.inj hlen).symm
            have hpast : last <:+ ch '\\' :: ch 'u' :: a :: b :: c :: d :: ch '\\' :: ch 'u' ::
                e :: f :: g :: h :: last :=
              List.suffix_append [ch '\\', ch 'u', a, b, c, d, ch '\\', ch 'u', e, f, g, h] last
            rcases hlow with hshort | ⟨e', f', g', h', last', number2, heq', hskip | hbytes⟩
            · exact absurd rfl (hshort e f g h last)
            · simp only [List.cons.injEq] at heq'
              obtain ⟨rfl, rfl, rfl, rfl, rfl⟩ := heq'
              obtain ⟨out, rest', hout, hle, hrest'⟩ := hcopy' number number2
              exact ⟨out, rest', hskip.trans hout, by omega, hrest'.trans hpast⟩
            · simp only [List.cons.injEq] at heq'
              obtain ⟨rfl, rfl, rfl, rfl, rfl⟩ := heq'
              obtain ⟨out, rest', hout, hle, hrest'⟩ := hcopy' (transcode number).2 number2
              refine ⟨(transcode number).1 ++ out, rest', by rw [hbytes, hout]; rfl, ?_,
                hrest'.trans hpast⟩
              have := transcode_length_le number
              rw [List.length_append]
              omega

end Passes

/-! ## Pointers inside the text -/

/-- The pointer behind what was read, and the position of an error, point into the
text. Only where the memory ran out there is no position. -/
def Within (granted : Nat → Bool) (text : Text) : Cursor → Prop
  | .ok rest => rest <:+ text
  | .error (some ep) => ep <:+ text
  | .error none => ∃ call, granted call = false

theorem Within.of_suffix {granted : Nat → Bool} {text rest : Text} {cursor : Cursor}
    (hcursor : Within granted rest cursor) (hrest : rest <:+ text) :
    Within granted text cursor := by
  match cursor with
  | .ok last => exact List.IsSuffix.trans hcursor hrest
  | .error (some ep) => exact List.IsSuffix.trans hcursor hrest
  | .error none => exact hcursor

theorem skip_suffix (text : Text) : skip text <:+ text := List.dropWhile_suffix _

theorem readWhole_suffix {D : Type} [Doubles D] (num : Text) :
    (readWhole (D := D) num).2 <:+ num := by
  have hzero : (if num.head? = some (ch '0') then num.tail else num) <:+ num := by
    split_ifs
    · exact List.tail_suffix num
    · exact List.suffix_rfl
  unfold readWhole
  simp only
  split_ifs at hzero ⊢
  · exact (List.dropWhile_suffix _).trans hzero
  · exact hzero
  · exact (List.dropWhile_suffix _).trans hzero
  · exact hzero

theorem readFraction_suffix {D : Type} [Doubles D] (n : D) (num : Text) :
    (readFraction n num).2.2 <:+ num := by
  unfold readFraction
  split_ifs
  · exact (List.dropWhile_suffix _).trans (List.tail_suffix num)
  · exact List.suffix_rfl

theorem readExponent_suffix (num : Text) : (readExponent num).2 <:+ num := by
  have htail : (if num.tail.head? = some (ch '+') ∨ num.tail.head? = some (ch '-')
      then num.tail.tail else num.tail) <:+ num := by
    split_ifs
    · exact (List.tail_suffix _).trans (List.tail_suffix num)
    · exact List.tail_suffix num
  unfold readExponent
  split_ifs
  · exact (List.dropWhile_suffix _).trans (by simpa using htail)
  · exact List.suffix_rfl

theorem parseNumber_suffix {D : Type} [Doubles D] (fields : Fields D) (num : Text) :
    (parseNumber fields num).2 <:+ num := by
  have hsign : (if num.head? = some (ch '-') then num.tail else num) <:+ num := by
    split_ifs
    · exact List.tail_suffix num
    · exact List.suffix_rfl
  unfold parseNumber
  exact (readExponent_suffix _).trans
    ((readFraction_suffix _ _).trans ((readWhole_suffix _).trans (by simpa using hsign)))

/-! ## What the parser owns -/

section Owning

variable {D : Type} {granted : Nat → Bool}

/-- An item that is being filled: no value yet, and not a reference. -/
structure Fields.Open (fields : Fields D) : Prop where
  valuestring : fields.valuestring = none
  owning : fields.isReference = false

theorem Fields.owning_of_type {fields : Fields D} (type : Nat)
    (hflag : (type &&& flagReference != 0) = false) (htype : fields.type = type) :
    fields.isReference = false := by
  rw [Fields.isReference, htype, hflag]

theorem Fields.blocks_of_owning {fields : Fields D} (howning : fields.isReference = false) :
    fields.blocks = strBlocks fields.valuestring + strBlocks fields.string := by
  rw [Fields.blocks, if_neg (by simp [howning])]

theorem Item.blocks_of_owning {fields : Fields D} (howning : fields.isReference = false)
    (addr : Nat) (child next : Item D) :
    (Item.node addr fields child next).blocks =
      {addr} + (fields.blocks + child.blocks) + next.blocks := by
  rw [Item.blocks, if_neg (by simp [howning])]
  simp only [add_assoc]

variable [Doubles D] (hex : HexScan)

theorem zeroFields_open : (zeroFields : Fields D).Open :=
  ⟨rfl, Fields.owning_of_type typeFalse (by decide) rfl⟩

theorem zeroFields_blocks : (zeroFields : Fields D).blocks = 0 := by
  rw [Fields.blocks_of_owning zeroFields_open.owning]
  exact add_zero 0

omit [Doubles D] in
theorem parseString_spec (granted : Nat → Bool) {fields : Fields D}
    (hopen : fields.Open) {str : Text}
    (hstr : EscapesComplete str) :
    Triple granted (parseString hex fields str) fields.blocks fun result owned =>
      owned = result.1.blocks ∧ result.1.isReference = false ∧ result.1.string = fields.string ∧
        Within granted str result.2 := by
  have hblocks := Fields.blocks_of_owning hopen.owning
  match str with
  | [] => exact Triple.pure ⟨rfl, hopen.owning, rfl, List.suffix_rfl⟩
  | c :: body =>
      rw [parseString]
      split_ifs with hquote
      · exact Triple.pure ⟨rfl, hopen.owning, rfl, List.suffix_rfl⟩
      · rw [not_not] at hquote
        subst hquote
        obtain ⟨len, hlen, hcopy⟩ := copyString_fits hex (hstr body List.suffix_rfl)
        obtain ⟨out, rest, hout, hle, hrest⟩ := hcopy (hex.stale body).1 (hex.stale body).2
        have hbody : body <:+ ch '"' :: body := List.suffix_cons _ _
        refine Triple.ofOption_bind hlen (Triple.malloc_bind (fun hrefused => ?_) fun addr => ?_)
        · exact Triple.pure ⟨rfl, hopen.owning, rfl, hrefused⟩
        · refine Triple.ofOption_bind hout ?_
          simp only [if_pos (Nat.lt_succ_of_le hle)]
          have howning : ∀ str : Option Str, ({ fields with
              valuestring := str, type := typeString } : Fields D).isReference = false :=
            fun _ => Fields.owning_of_type typeString (by decide) rfl
          refine Triple.pure ⟨?_, howning _, rfl, ?_⟩
          · rw [Fields.blocks_of_owning (howning _), hblocks, hopen.valuestring]
            exact congrArg _ (zero_add _)
          · change (if _ then _ else _) <:+ _
            split_ifs
            · exact (List.tail_suffix rest).trans (hrest.trans hbody)
            · exact hrest.trans hbody

/-- What a chain that was read owns, and where its reading ended. -/
def ChainRead (granted : Nat → Bool) (text : Text) (result : Item D × Cursor)
    (owned : Multiset Nat) : Prop :=
  owned = result.1.blocks ∧ Within granted text result.2

omit [Doubles D] in
theorem continueChain_spec {close : UInt8} {more : Nat → Text → Allocating (Item D × Cursor)}
    {link : Item D → Item D} {cursor : Cursor} {text : Text} {base : Multiset Nat}
    (hmore : ∀ addr rest, rest.length < text.length → rest <:+ text →
      Triple granted (more addr rest) {addr} (ChainRead granted rest))
    (hlink : ∀ next, (link next).blocks = base + next.blocks)
    (hcursor : Within granted text cursor) :
    Triple granted (continueChain close more link cursor) base (ChainRead granted text) := by
  have hlast : base = (link .null).blocks := by rw [hlink]; exact (add_zero base).symm
  match cursor with
  | .error (some ep) => exact Triple.pure ⟨hlast, hcursor⟩
  | .error none => exact Triple.pure ⟨hlast, hcursor⟩
  | .ok value =>
      have hskip : skip value <:+ text := (skip_suffix value).trans hcursor
      rw [continueChain]
      match hvalue : skip value with
      | [] => exact Triple.pure ⟨hlast, List.nil_suffix⟩
      | c :: rest =>
          rw [hvalue] at hskip
          have hrest : rest <:+ text := (List.suffix_cons c rest).trans hskip
          have hlt : rest.length < text.length := by
            have := hskip.length_le
            rw [List.length_cons] at this
            omega
          simp only
          split_ifs
          · refine Triple.malloc_bind (fun hrefused => Triple.pure ⟨hlast, hrefused⟩)
              fun addr => ?_
            refine ((hmore addr rest hlt hrest).frame base).bind ?_
            rintro ⟨chain, cursor⟩ owned ⟨own, ⟨hown, hwithin⟩, rfl⟩
            exact Triple.pure ⟨by rw [hown, hlink, add_comm], hwithin.of_suffix hrest⟩
          · exact Triple.pure ⟨hlast, hrest⟩
          · exact Triple.pure ⟨hlast, hskip⟩

/-- What an item that was filled owns, without its own block, and where its reading
ended. -/
def ValueRead (granted : Nat → Bool) (text : Text) (result : Fields D × Item D × Cursor)
    (owned : Multiset Nat) : Prop :=
  owned = result.1.blocks + result.2.1.blocks ∧ result.1.isReference = false ∧
    Within granted text result.2.2

omit [Doubles D] in
/-- A value that is set without a request for memory. -/
theorem ValueRead.of_type {fields fields' : Fields D} {text rest : Text} (hopen : fields.Open)
    (hstring : fields'.string = fields.string) (hvalue : fields'.valuestring = none)
    (type : Nat) (hflag : (type &&& flagReference != 0) = false) (htype : fields'.type = type)
    (hrest : rest <:+ text) :
    ValueRead granted text (fields', .null, .ok rest) fields.blocks := by
  have howning := Fields.owning_of_type type hflag htype
  refine ⟨?_, howning, hrest⟩
  rw [Fields.blocks_of_owning howning, Fields.blocks_of_owning hopen.owning, hstring, hvalue,
    hopen.valuestring]
  exact (add_zero _).symm

omit [Doubles D] in
theorem openChain_spec {type : Nat} {close : UInt8}
    {more : Nat → Text → Allocating (Item D × Cursor)} {fields : Fields D} {value : Text}
    (hopen : fields.Open) (hflag : (type &&& flagReference != 0) = false)
    (hmore : ∀ addr rest, rest <:+ value →
      Triple granted (more addr rest) {addr} (ChainRead granted rest)) :
    Triple granted (openChain type close more fields value) fields.blocks
      (ValueRead granted value) := by
  have howning : ({ fields with type := type } : Fields D).isReference = false :=
    Fields.owning_of_type type hflag rfl
  have hblocks : fields.blocks = ({ fields with type := type } : Fields D).blocks := by
    rw [Fields.blocks_of_owning howning, Fields.blocks_of_owning hopen.owning]
  rw [openChain]
  simp only
  split_ifs
  · exact Triple.pure (ValueRead.of_type hopen rfl hopen.valuestring type hflag rfl
      ((List.tail_suffix _).trans (skip_suffix value)))
  · refine Triple.malloc_bind (fun hrefused => ?_) fun addr => ?_
    · exact Triple.pure ⟨hblocks.trans (add_zero _).symm, howning, hrefused⟩
    · refine ((hmore addr (skip value) (skip_suffix value)).frame fields.blocks).bind ?_
      rintro ⟨child, cursor⟩ owned ⟨own, ⟨hown, hwithin⟩, rfl⟩
      refine Triple.pure ⟨?_, howning, hwithin.of_suffix (skip_suffix value)⟩
      rw [hown, hblocks, add_comm]

/-- Values of this depth are read inside their text. -/
def ValuesRead (D : Type) [Doubles D] (granted : Nat → Bool) (depth : Nat) : Prop :=
  ∀ (fields : Fields D) (value : Text), fields.Open → EscapesComplete value →
    2 * value.length + 1 ≤ depth →
    Triple granted (parseValue hex depth fields value) fields.blocks (ValueRead granted value)

/-- So are chains of this depth. -/
def ChainsRead (granted : Nat → Bool)
    (chain : Nat → Nat → Text → Allocating (Item D × Cursor)) (depth : Nat) : Prop :=
  ∀ addr value, EscapesComplete value → 2 * value.length + 2 ≤ depth →
    Triple granted (chain depth addr value) {addr} (ChainRead granted value)

theorem parseValue_step {depth : Nat}
    (helements : ChainsRead granted (parseElements (D := D) hex) depth)
    (hmembers : ChainsRead granted (parseMembers (D := D) hex) depth) :
    ValuesRead hex D granted (depth + 1) := by
  intro fields value hopen htext hdepth
  have hliteral : ∀ (n type : Nat) (valueint : Int32), (type &&& flagReference != 0) = false →
      Triple granted (pure ({ fields with type := type, valueint := valueint }, .null,
        .ok (value.drop n))) fields.blocks (ValueRead granted value) :=
    fun n type valueint hflag => Triple.pure (ValueRead.of_type hopen rfl hopen.valuestring type
      hflag rfl (List.drop_suffix n value))
  rw [parseValue.eq_def]
  simp only
  split_ifs
  · exact hliteral 4 typeNull fields.valueint (by decide)
  · exact hliteral 5 typeFalse fields.valueint (by decide)
  · exact hliteral 4 typeTrue 1 (by decide)
  · have hunread : ∀ ep, ep <:+ value → Triple granted
        (pure (fields, .null, .error (some ep))) fields.blocks (ValueRead granted value) :=
      fun ep hep => Triple.pure ⟨(add_zero _).symm, hopen.owning, hep⟩
    cases value with
    | nil => exact hunread [] List.suffix_rfl
    | cons c rest =>
        have hrest : rest <:+ c :: rest := List.suffix_cons c rest
        have hchain : ∀ type close chain, (type &&& flagReference != 0) = false →
            ChainsRead granted chain depth →
            Triple granted (openChain type close (fun addr text => chain depth addr text)
              fields rest) fields.blocks (ValueRead granted (c :: rest)) := by
          intro type close chain hflag hread
          refine (openChain_spec hopen hflag fun addr text hsuffix =>
            hread addr text (htext.of_suffix (hsuffix.trans hrest)) ?_).mono ?_
          · have := hsuffix.length_le
            rw [List.length_cons] at hdepth
            omega
          · rintro _ owned ⟨hown, howning, hwithin⟩
            exact ⟨hown, howning, hwithin.of_suffix hrest⟩
        simp only
        split_ifs
        · refine (parseString_spec hex granted hopen htext).bind ?_
          rintro ⟨fields', cursor⟩ owned ⟨rfl, howning, -, hwithin⟩
          exact Triple.pure ⟨(add_zero _).symm, howning, hwithin⟩
        · exact Triple.pure (ValueRead.of_type hopen rfl hopen.valuestring typeNumber
            (by decide) rfl (parseNumber_suffix fields _))
        · exact hchain typeArray (ch ']') (parseElements hex) (by decide) helements
        · exact hchain typeObject (ch '}') (parseMembers hex) (by decide) hmembers
        · exact hunread _ List.suffix_rfl

/-- A new item, its value, and the rest of the chain. -/
theorem chain_step (addr : Nat) (close : UInt8) {depth : Nat} {fields : Fields D}
    {value text : Text}
    {chain : Nat → Nat → Text → Allocating (Item D × Cursor)}
    (hvalue : ValuesRead hex D granted depth) (hchain : ChainsRead granted chain depth)
    (hopen : fields.Open) (htext : EscapesComplete text) (hsuffix : value <:+ text)
    (hdepth : 2 * text.length + 2 ≤ depth + 1) :
    Triple granted (do
      let (fields, child, cursor) ← parseValue hex depth fields value
      continueChain close (fun addr text => chain depth addr text) (.node addr fields child) cursor)
      ({addr} + fields.blocks) (ChainRead granted text) := by
  have hlength := hsuffix.length_le
  have hread := (hvalue fields value hopen (htext.of_suffix hsuffix) (by omega)).frame {addr}
  rw [add_comm] at hread
  refine hread.bind ?_
  rintro ⟨fields', child, cursor⟩ owned ⟨own, ⟨hown, howning, hwithin⟩, rfl⟩
  have hbase : own + {addr} = {addr} + (fields'.blocks + child.blocks) := by
    rw [hown, add_comm]
  rw [hbase]
  refine continueChain_spec (fun addr rest hlt hrest => ?_)
    (Item.blocks_of_owning howning addr child) (hwithin.of_suffix hsuffix)
  exact hchain addr rest (htext.of_suffix hrest) (by omega)

theorem parseElements_step {depth : Nat} (hvalue : ValuesRead hex D granted depth)
    (helements : ChainsRead granted (parseElements (D := D) hex) depth) :
    ChainsRead granted (parseElements (D := D) hex) (depth + 1) := by
  intro addr value htext hdepth
  have hstep := chain_step hex addr (ch ']') hvalue helements zeroFields_open
    htext (skip_suffix value) hdepth
  rw [zeroFields_blocks, add_zero] at hstep
  rw [parseElements.eq_def]
  exact hstep

theorem parseMembers_step {depth : Nat} (hvalue : ValuesRead hex D granted depth)
    (hmembers : ChainsRead granted (parseMembers (D := D) hex) depth) :
    ChainsRead granted (parseMembers (D := D) hex) (depth + 1) := by
  intro addr value htext hdepth
  have hname := (parseString_spec hex granted (zeroFields_open (D := D))
    (htext.of_suffix (skip_suffix value))).frame {addr}
  rw [zeroFields_blocks, zero_add] at hname
  rw [parseMembers.eq_def]
  refine hname.bind ?_
  rintro ⟨fields, cursor⟩ owned ⟨own, ⟨rfl, howning, hstring, hwithin⟩, rfl⟩
  have hfailed : ∀ fields' : Fields D, fields'.isReference = false →
      fields'.blocks = fields.blocks →
      fields.blocks + {addr} = (Item.node addr fields' .null .null).blocks := by
    intro fields' howning' hblocks
    rw [Item.blocks_of_owning howning', hblocks, add_comm fields.blocks]
    simp only [Item.blocks, add_zero]
  have hwithin := hwithin.of_suffix (skip_suffix value)
  cases cursor with
  | error ep => exact Triple.pure ⟨hfailed fields howning rfl, hwithin⟩
  | ok rest =>
      let named : Fields D := { fields with string := fields.valuestring, valuestring := none }
      have hnamed : named.Open := ⟨rfl, howning⟩
      have hblocks : named.blocks = fields.blocks := by
        rw [Fields.blocks_of_owning hnamed.owning, Fields.blocks_of_owning howning, hstring]
        exact add_comm _ _
      have hskip : skip rest <:+ value := (skip_suffix rest).trans hwithin
      simp only
      cases hrest : skip rest with
      | nil => exact Triple.pure ⟨hfailed named howning hblocks, List.nil_suffix⟩
      | cons c last =>
          rw [hrest] at hskip
          simp only
          split_ifs
          · rw [add_comm, ← hblocks]
            exact chain_step hex addr (ch '}') hvalue hmembers hnamed htext
              ((skip_suffix last).trans ((List.suffix_cons c last).trans hskip)) hdepth
          · exact Triple.pure ⟨hfailed named howning hblocks, hskip⟩

/-- With two calls for every character the functions that call each other end inside
the text, and what they allocate hangs on what they return. -/
theorem parse_spec (depth : Nat) :
    ValuesRead hex D granted depth ∧
      ChainsRead granted (parseElements (D := D) hex) depth ∧
      ChainsRead granted (parseMembers (D := D) hex) depth := by
  induction depth with
  | zero => exact ⟨fun _ _ _ _ h => by omega, fun _ _ _ h => by omega, fun _ _ _ h => by omega⟩
  | succ depth ih =>
      obtain ⟨hvalue, helements, hmembers⟩ := ih
      exact ⟨parseValue_step hex helements hmembers, parseElements_step hex hvalue helements,
        parseMembers_step hex hvalue hmembers⟩

end Owning

/-! ## A parse and its deletion -/

section Parse

variable {D : Type}

/-- What the caller of `cJSON_ParseWithOpts` can rely on. -/
structure ParsedRight (granted : Nat → Bool) (text : Text) (requireNullTerminated : Bool)
    (parsed : Parsed D) : Prop where
  failed : parsed.root = .null → parsed.parseEnd = none ∧
    ((∃ ep, parsed.ep = some ep ∧ ep <:+ text) ∨
      parsed.ep = none ∧ ∃ call, granted call = false)
  ended : parsed.root ≠ .null → parsed.ep = none ∧
    ∃ rest, parsed.parseEnd = some rest ∧ rest <:+ text ∧
      (requireNullTerminated = true → rest.head?.all (· = 0) = true)

theorem ParsedRight.of_error {granted : Nat → Bool} {text : Text} {requireNullTerminated : Bool}
    {ep : Option Text} (hwithin : Within granted text (.error ep)) :
    ParsedRight (D := D) granted text requireNullTerminated ⟨.null, none, ep⟩ := by
  refine ⟨fun _ => ⟨rfl, ?_⟩, fun hroot => absurd rfl hroot⟩
  match ep with
  | some ep => exact .inl ⟨ep, rfl, hwithin⟩
  | none => exact .inr ⟨rfl, hwithin⟩

variable [Doubles D] (hex : HexScan)

theorem cJSONParseWithOpts_spec (granted : Nat → Bool) {text : Text}
    (htext : EscapesComplete text) (requireNullTerminated : Bool) :
    Triple granted (cJSONParseWithOpts (D := D) hex text requireNullTerminated) 0
      fun parsed owned => owned = parsed.root.blocks ∧
        ParsedRight granted text requireNullTerminated parsed := by
  refine Triple.malloc_bind
    (fun hrefused => Triple.pure ⟨rfl, ParsedRight.of_error hrefused⟩) fun addr => ?_
  have hskip := skip_suffix text
  have hlength := hskip.length_le
  have hvalues : ValuesRead hex D granted (2 * text.length + 2) := (parse_spec hex _).1
  have hread := (hvalues zeroFields (skip text) zeroFields_open (htext.of_suffix hskip)
    (by omega)).frame {addr}
  rw [zeroFields_blocks, zero_add] at hread
  rw [add_zero]
  refine hread.bind ?_
  rintro ⟨fields, child, cursor⟩ owned ⟨own, ⟨hown, howning, hwithin⟩, rfl⟩
  have hwithin := hwithin.of_suffix hskip
  have hblocks : own + {addr} = (Item.node addr fields child .null).blocks := by
    rw [hown, Item.blocks_of_owning howning, add_comm]
    exact (add_zero _).symm
  rw [hblocks]
  have hfailed : ∀ ep, Within granted text (.error ep) → Triple granted
      (do
        delete (Item.node addr fields child .null)
        return (⟨.null, none, ep⟩ : Parsed D))
      (Item.node addr fields child .null).blocks
      fun parsed owned => owned = parsed.root.blocks ∧
        ParsedRight granted text requireNullTerminated parsed := by
    intro ep hep
    refine (delete_spec _).bind ?_
    rintro - owned rfl
    exact Triple.pure ⟨rfl, ParsedRight.of_error hep⟩
  match cursor with
  | .error ep => exact hfailed ep hwithin
  | .ok rest =>
      have hend : (if requireNullTerminated then skip rest else rest) <:+ text := by
        split_ifs
        · exact (skip_suffix rest).trans hwithin
        · exact hwithin
      simp only
      generalize (if requireNullTerminated then skip rest else rest) = last at hend ⊢
      split_ifs with hmore
      · exact hfailed _ hend
      · refine Triple.pure ⟨rfl, fun hroot => absurd hroot (by simp), fun _ => ⟨rfl, last, rfl,
          hend, fun hrequired => ?_⟩⟩
        cases hhead : last.head? with
        | none => rfl
        | some c =>
            have hzero : c = 0 := by
              by_contra hne
              exact hmore ⟨hrequired, by rw [hhead]; simpa using hne⟩
            rw [hzero]
            rfl

/-- A parse stays inside the text and the buffers that it allocates. Where it fails, nothing
that it allocated is left, and unless the memory ran out there is a position in the
text; the tree that it returns otherwise owns all that it allocated, and to delete the
tree gives back exactly this. -/
theorem parse_stays_inside {text : Text} (htext : EscapesComplete text)
    (requireNullTerminated : Bool) (ledger : Ledger) :
    ∃ (parsed : Parsed D) (after final : Ledger),
      cJSONParseWithOpts hex text requireNullTerminated ledger = some (parsed, after) ∧
      after.live = parsed.root.blocks + ledger.live ∧
      ParsedRight ledger.granted text requireNullTerminated parsed ∧
      delete parsed.root after = some ((), final) ∧ final.live = ledger.live := by
  obtain ⟨parsed, after, owned, hrun, hgranted, hlive, rfl, hright⟩ :=
    cJSONParseWithOpts_spec (D := D) hex ledger.granted htext requireNullTerminated ledger
      ledger.live rfl
      (zero_add _).symm
  obtain ⟨⟨⟩, final, owned, hdelete, -, hfinal, rfl⟩ :=
    delete_spec parsed.root after ledger.live hgranted hlive
  exact ⟨parsed, after, final, hrun, hlive, hright, hdelete, by rw [hfinal, zero_add]⟩

/-- An array with a number and an escape in a string. -/
def escapedArray : Text :=
  ascii ['[', '-', '2', '.', '5', ',', '"', '\\', 'u', '0', '0', 'e', '9', '"', ']']

/-- Once there is memory for every block and the escape is read, once there is none for the
third block. -/
theorem parse_stays_inside_array :
    (∃ (parsed : Parsed ℚ) (after final : Ledger),
      cJSONParseWithOpts leadingDigits escapedArray false (Ledger.empty fun _ => true) =
        some (parsed, after) ∧
      parsed.ep = none ∧ parsed.parseEnd = some [] ∧
      after.live = parsed.root.blocks + (Ledger.empty fun _ => true).live ∧
      delete parsed.root after = some ((), final) ∧
      final.live = (Ledger.empty fun _ => true).live) ∧
    ∃ (parsed : Parsed ℚ) (after final : Ledger),
      cJSONParseWithOpts leadingDigits escapedArray false (Ledger.empty fun call => call != 2) =
        some (parsed, after) ∧
      after.live = parsed.root.blocks + (Ledger.empty fun call => call != 2).live ∧
      ParsedRight (Ledger.empty fun call => call != 2).granted escapedArray false parsed ∧
      delete parsed.root after = some ((), final) ∧
      final.live = (Ledger.empty fun call => call != 2).live := by
  have hcomplete : EscapesComplete escapedArray := by decide
  refine ⟨?_, parse_stays_inside leadingDigits hcomplete false _⟩
  have hends : (cJSONParseWithOpts (D := ℚ) leadingDigits escapedArray false
      (Ledger.empty fun _ => true)).map (fun result => (result.1.ep, result.1.parseEnd)) =
        some (none, some []) := rfl
  obtain ⟨parsed, after, final, hrun, hlive, -, hdelete⟩ :=
    parse_stays_inside (D := ℚ) leadingDigits hcomplete false (Ledger.empty fun _ => true)
  rw [hrun] at hends
  obtain ⟨hep, hend⟩ := Prod.mk.inj (Option.some.inj hends)
  exact ⟨parsed, after, final, hrun, hep, hend, hlive, hdelete⟩

end Parse

end McuProxy.Json
