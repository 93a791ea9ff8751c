/-
# Every JSON text is accepted

The parser reads every text of the grammar to its end and returns a tree with the
value that the text has, as long as there is memory: with the same strings, and with
numbers that are read from the numerals. A derivation of the text is followed from the
inside: a value is read up to what follows it, a chain up to the bracket that closes it,
whatever stands behind.
-/

import McuProxy.Json.Number
import McuProxy.Json.ParseSafe
import McuProxy.Json.Utf8

namespace McuProxy.Json

open McuProxy.Math Allocating

theorem skip_of_blank {blank : Text} (hblank : Blank blank) (text : Text) :
    skip (blank ++ text) = skip text := by
  have hwhite : ∀ c ∈ [ch ' ', 9, 10, 13], (c != 0 && decide (c ≤ 32)) = true := by decide +kernel
  have hall : ∀ c ∈ blank, (c != 0 && decide (c ≤ 32)) = true :=
    fun c hc => hwhite c (hblank c hc)
  rw [skip, List.dropWhile_append_of_pos hall]
  rfl

theorem skip_of_mark {c : UInt8} (hc : 32 < c) (text : Text) : skip (c :: text) = c :: text := by
  rw [skip, List.dropWhile_cons_of_neg]
  simpa using fun _ => hc

theorem skip_blank_mark {blank : Text} (hblank : Blank blank) {c : UInt8} (hc : 32 < c)
    (text : Text) : skip (blank ++ c :: text) = c :: text := by
  rw [skip_of_blank hblank, skip_of_mark hc]

theorem hexDigit_plain {c : UInt8} {digit : UInt32} (hc : hexDigit c = some digit) :
    isPlain c = true := by
  have hmarks : hexDigit (ch '"') = none ∧ hexDigit 0 = none ∧ hexDigit (ch '\\') = none := by
    decide
  rw [isPlain_iff]
  refine ⟨?_, ?_, ?_⟩ <;> rintro rfl
  · exact Option.some_ne_none digit (hc.symm.trans hmarks.1)
  · exact Option.some_ne_none digit (hc.symm.trans hmarks.2.1)
  · exact Option.some_ne_none digit (hc.symm.trans hmarks.2.2)

theorem hexNumber_plain {a b c d : UInt8} {number : UInt32}
    (hnumber : hexNumber a b c d = some number) :
    isPlain a = true ∧ isPlain b = true ∧ isPlain c = true ∧ isPlain d = true := by
  simp only [hexNumber, Option.bind_eq_bind, Option.bind_eq_some_iff] at hnumber
  obtain ⟨_, ha, _, hb, _, hc, _, hd, -⟩ := hnumber
  exact ⟨hexDigit_plain ha, hexDigit_plain hb, hexDigit_plain hc, hexDigit_plain hd⟩

theorem wellEscaped_unicode {a b c d : UInt8} {number : UInt32}
    (hnumber : hexNumber a b c d = some number) (rest : Text) :
    wellEscaped (ch '\\' :: ch 'u' :: a :: b :: c :: d :: rest) = wellEscaped rest := by
  obtain ⟨ha, hb, hc, hd⟩ := hexNumber_plain hnumber
  rw [wellEscaped.eq_def]
  simp [ha, hb, hc, hd, show ¬(ch '\\' = ch '"' ∨ ch '\\' = 0) by decide]

theorem escape_letter {e c : UInt8} (he : (e, c) ∈ simpleEscapes) : e ≠ ch 'u' ∧ escaped e = c := by
  simp only [simpleEscapes, List.mem_cons, Prod.mk.injEq, List.not_mem_nil, or_false] at he
  rcases he with ⟨rfl, rfl⟩ | ⟨rfl, rfl⟩ | ⟨rfl, rfl⟩ | ⟨rfl, rfl⟩ | ⟨rfl, rfl⟩ | ⟨rfl, rfl⟩ |
    ⟨rfl, rfl⟩ | ⟨rfl, rfl⟩ <;> decide

theorem isPlain_of_printed {c : UInt8} (hc : 32 ≤ c) (hquote : c ≠ ch '"') (hslash : c ≠ ch '\\') :
    isPlain c = true := by
  refine (isPlain_iff c).mpr ⟨hquote, ?_, hslash⟩
  rintro rfl
  exact absurd hc (by decide)

theorem Quoted.wellEscaped {chars : List UInt8} {text : Text} (htext : Quoted chars text)
    (rest : Text) : wellEscaped (text ++ ch '"' :: rest) = true := by
  induction htext with
  | nil => rw [List.nil_append, wellEscaped.eq_def]; exact if_pos (.inl rfl)
  | plain hc hquote hslash _ ih =>
      rw [List.cons_append, wellEscaped_plain (isPlain_of_printed hc hquote hslash), ih]
  | escape he _ ih =>
      rw [List.cons_append, List.cons_append, wellEscaped_escape (escape_letter he).1, ih]
  | unicode hnumber _ _ ih => exact (wellEscaped_unicode hnumber _).trans ih
  | pair hfirst hsecond _ _ _ _ ih =>
      exact (wellEscaped_unicode hfirst _).trans ((wellEscaped_unicode hsecond _).trans ih)

section Strings

variable (hex : HexScan) (uc uc2 : UInt32)

/-- Four digits that are not half of a pair. -/
theorem copyString_char {a b c d : UInt8} {char : Char}
    (hnumber : hexNumber a b c d = some char.val) (hzero : char.val ≠ 0) (rest : Text) :
    copyString hex uc uc2 (ch '\\' :: ch 'u' :: a :: b :: c :: d :: rest) =
      (copyString hex (transcode char.val).2 uc2 rest).map
        (store (String.utf8EncodeChar char)) := by
  have hscan := hex.scan_digits a b c d char.val rest hnumber
  have hsurrogate : ∀ low high : UInt32, 0xD800 ≤ low.toNat → high.toNat ≤ 0xDFFF →
      ¬(low ≤ char.val ∧ char.val ≤ high) := by
    rintro low high hlow hhigh ⟨hle, hge⟩
    have hle := UInt32.le_iff_toNat_le.mp hle
    have hge := UInt32.le_iff_toNat_le.mp hge
    have hvalid : char.val.toNat < 0xD800 ∨ 0xDFFF < char.val.toNat :=
      char.valid.imp id And.left
    omega
  rw [copyString.eq_def, ← transcode_eq]
  simp [show ¬(ch '\\' = ch '"' ∨ ch '\\' = 0) by decide, hscan, hzero,
    hsurrogate 0xDC00 0xDFFF (by decide) (by decide),
    hsurrogate 0xD800 0xDBFF (by decide) (by decide)]

/-- Two halves of a pair. -/
theorem copyString_pair {a b c d e f g h : UInt8} {high low : UInt32} {char : Char}
    (hfirst : hexNumber a b c d = some high) (hsecond : hexNumber e f g h = some low)
    (hhigh : 0xD800 ≤ high ∧ high ≤ 0xDBFF) (hlow : 0xDC00 ≤ low ∧ low ≤ 0xDFFF)
    (hchar : char.toNat = 0x10000 + (high.toNat - 0xD800) * 0x400 + (low.toNat - 0xDC00))
    (rest : Text) :
    copyString hex uc uc2 (ch '\\' :: ch 'u' :: a :: b :: c :: d ::
        ch '\\' :: ch 'u' :: e :: f :: g :: h :: rest) =
      (copyString hex (transcode char.val).2 low rest).map
        (store (String.utf8EncodeChar char)) := by
  have hscan := hex.scan_digits a b c d high
    (ch '\\' :: ch 'u' :: e :: f :: g :: h :: rest) hfirst
  have hscan' := hex.scan_digits e f g h low rest hsecond
  have hjoin : joinSurrogates high low = char.val :=
    UInt32.toNat_inj.mp ((joinSurrogates_toNat hhigh hlow).trans hchar.symm)
  have hnotlow : ¬(0xDC00 ≤ high ∧ high ≤ 0xDFFF ∨ high = 0) := by
    have hle := UInt32.le_iff_toNat_le.mp hhigh.1
    have hge := UInt32.le_iff_toNat_le.mp hhigh.2
    rintro (⟨hle', -⟩ | rfl)
    · have hle' := UInt32.le_iff_toNat_le.mp hle'
      exact absurd (hle'.trans hge) (by decide)
    · exact absurd hle (by decide)
  have hsecond : ¬(low < 0xDC00 ∨ low > 0xDFFF) := by
    rintro (hlt | hgt)
    · exact absurd (UInt32.lt_of_lt_of_le hlt hlow.1) (UInt32.lt_irrefl low)
    · exact absurd (UInt32.lt_of_lt_of_le hgt hlow.2) (UInt32.lt_irrefl _)
  rw [copyString.eq_def, ← transcode_eq]
  simp only [show ¬(ch '\\' = ch '"' ∨ ch '\\' = 0) by decide, hscan, hscan', hnotlow, hhigh,
    hsecond, hjoin, ne_eq, not_true_eq_false, if_false, if_true, and_self, Option.getD_some]

/-- The second pass stores the bytes of a string and ends at its quote. -/
theorem copyString_quoted {chars : List UInt8} {text : Text} (htext : Quoted chars text)
    (rest : Text) :
    copyString hex uc uc2 (text ++ ch '"' :: rest) = some (chars, ch '"' :: rest) := by
  induction htext generalizing uc uc2 with
  | nil => rw [List.nil_append, copyString.eq_def]; exact if_pos (.inl rfl)
  | plain hc hquote hslash _ ih =>
      rw [List.cons_append, copyString_plain hex uc uc2 (isPlain_of_printed hc hquote hslash), ih]
      rfl
  | escape he _ ih =>
      obtain ⟨hletter, hescaped⟩ := escape_letter he
      rw [List.cons_append, List.cons_append, copyString_escape hex uc uc2 hletter, ih, hescaped]
      rfl
  | unicode hnumber hzero _ ih =>
      simp only [List.cons_append]
      rw [copyString_char hex uc uc2 hnumber hzero, ih]
      rfl
  | pair hfirst hsecond hhigh hlow hchar _ ih =>
      simp only [List.cons_append]
      rw [copyString_pair hex uc uc2 hfirst hsecond hhigh hlow hchar, ih]
      rfl

theorem parseString_gives {D : Type} (fields : Fields D) {chars : List UInt8} {text : Text}
    (htext : Quoted chars text) (rest : Text) :
    Gives (parseString hex fields (ch '"' :: (text ++ ch '"' :: rest))) fun result =>
      ∃ addr, result = ({ fields with valuestring := some ⟨addr, chars⟩, type := typeString },
        .ok rest) := by
  obtain ⟨len, hlen, hcopy⟩ := copyString_fits hex (htext.wellEscaped rest)
  let stale := hex.stale (text ++ ch '"' :: rest)
  obtain ⟨out, last, hout, hle, -⟩ := hcopy stale.1 stale.2
  have hquoted := copyString_quoted hex stale.1 stale.2 htext rest
  obtain ⟨rfl, rfl⟩ : out = chars ∧ last = ch '"' :: rest :=
    Prod.mk.inj (Option.some.inj (hout.symm.trans hquoted))
  rw [parseString]
  simp only [ne_eq, not_true_eq_false, if_false]
  refine Gives.ofOption_bind hlen (Gives.malloc_bind fun addr => ?_)
  refine Gives.ofOption_bind hquoted ?_
  simp only [if_pos (Nat.lt_succ_of_le hle)]
  exact Gives.pure ⟨addr, rfl⟩

end Strings

/-- A value does not begin with white space or with a bracket that closes. -/
theorem Derives.begins {json : Value Numeral} {text : Text}
    (htext : Derives (.value json) text) :
    ∃ c rest, text = c :: rest ∧ 32 < c ∧ c ≠ ch ']' := by
  have hmark : ∀ (c : UInt8) (rest : Text), 32 < c ∧ c ≠ ch ']' →
      ∃ c' rest', c :: rest = c' :: rest' ∧ 32 < c' ∧ c' ≠ ch ']' :=
    fun c rest hc => ⟨c, rest, rfl, hc⟩
  cases htext with
  | null | false | true | string | emptyArray | array | emptyObject | object =>
      exact hmark _ _ (by decide)
  | number numeral =>
      obtain ⟨c, rest, htext, rfl | hdigit⟩ := numeral.begins
      · exact ⟨_, rest, htext, by decide⟩
      · refine ⟨c, rest, htext, UInt8.lt_of_lt_of_le (show 32 < ch '0' by decide) ?_,
          ne_of_digit hdigit (by decide)⟩
        exact UInt8.le_iff_toNat_le.mpr ((isDigit_iff c).mp hdigit).1

section Chains

variable {D : Type}

/-- Behind a value in a JSON text there is no more of a number. -/
theorem endsNumber_blank {after : Text} (hafter : Blank after) {rest : Text}
    (hrest : EndsNumber rest) : EndsNumber (after ++ rest) := by
  have hwhite : ∀ c ∈ [ch ' ', 9, 10, 13],
      isDigit c = false ∧ c ≠ ch '.' ∧ c ≠ ch 'e' ∧ c ≠ ch 'E' := by decide +kernel
  cases after with
  | nil => exact hrest
  | cons c after =>
      intro c' hc'
      obtain rfl : c = c' := Option.some.inj hc'
      exact hwhite c (hafter c List.mem_cons_self)

theorem endsNumber_mark {mark : UInt8} (hmark : mark ∈ [ch ',', ch ']', ch '}']) (rest : Text) :
    EndsNumber (mark :: rest) := by
  have hall : ∀ c ∈ [ch ',', ch ']', ch '}'],
      isDigit c = false ∧ c ≠ ch '.' ∧ c ≠ ch 'e' ∧ c ≠ ch 'E' := by decide +kernel
  intro c hc
  obtain rfl : mark = c := Option.some.inj hc
  exact hall mark hmark

theorem Item.values_node {addr : Nat} {fields : Fields D} {child next : Item D} {json : Value D}
    {values : List (Option (List UInt8) × Value D)}
    (hjson : fields.value child.values = some json) (hnext : next.values = some values) :
    (Item.node addr fields child next).values =
      some ((fields.string.map Str.chars, json) :: values) := by
  rw [Item.values, hjson, hnext]
  rfl

/-- Members that all have their names. -/
theorem mapM_named (members : List (List UInt8 × Value D)) :
    (members.map fun member => (some member.1, member.2)).mapM
      (fun child : Option (List UInt8) × Value D => child.1.map (·, child.2)) = some members := by
  induction members with
  | nil => rfl
  | cons member members ih => rw [List.map_cons, List.mapM_cons, ih]; rfl

/-- The last item of a chain, and the bracket behind it. -/
theorem continueChain_close {close : UInt8} {more : Nat → Text → Allocating (Item D × Cursor)}
    {link : Item D → Item D} {value rest : Text} (hvalue : skip value = close :: rest)
    (hclose : close ≠ ch ',') :
    Gives (continueChain close more link (.ok value)) fun result =>
      result = (link .null, .ok rest) := by
  rw [continueChain]
  simp only [hvalue, hclose, if_false, if_true]
  exact Gives.pure rfl

/-- An item of a chain, and a comma behind it. -/
theorem continueChain_comma {close : UInt8} {more : Nat → Text → Allocating (Item D × Cursor)}
    {link : Item D → Item D} {value rest : Text} {post : Item D × Cursor → Prop}
    (hvalue : skip value = ch ',' :: rest) (hmore : ∀ addr, Gives (more addr rest) post) :
    Gives (continueChain close more link (.ok value)) fun result =>
      ∃ chain, post (chain, result.2) ∧ result.1 = link chain := by
  rw [continueChain]
  simp only [hvalue, if_true]
  refine Gives.malloc_bind fun addr => (hmore addr).bind ?_
  rintro ⟨chain, cursor⟩ hchain
  exact Gives.pure ⟨chain, hchain, rfl⟩

/-- An array or an object without an item. -/
theorem openChain_empty {type : Nat} {close : UInt8}
    {more : Nat → Text → Allocating (Item D × Cursor)} {fields : Fields D} {value rest : Text}
    (hvalue : skip value = close :: rest) :
    Gives (openChain type close more fields value) fun result =>
      result = ({ fields with type := type }, .null, .ok rest) := by
  rw [openChain]
  simp only [hvalue, List.head?_cons, if_true]
  exact Gives.pure rfl

/-- The first item of an array or of an object. -/
theorem openChain_more {type : Nat} {close : UInt8}
    {more : Nat → Text → Allocating (Item D × Cursor)} {fields : Fields D} {value : Text}
    {post : Item D × Cursor → Prop} (hvalue : (skip value).head? ≠ some close)
    (hmore : ∀ addr, Gives (more addr (skip value)) post) :
    Gives (openChain type close more fields value) fun result =>
      result.1 = { fields with type := type } ∧ post result.2 := by
  rw [openChain]
  simp only [hvalue, if_false]
  refine Gives.malloc_bind fun addr => (hmore addr).bind ?_
  rintro ⟨child, cursor⟩ hchild
  exact Gives.pure ⟨rfl, hchild⟩

end Chains

section Values

variable {D : Type} [Doubles D] (hex : HexScan)

/-- A value that does not begin like a word. -/
theorem parseValue_mark (depth : Nat) (fields : Fields D) {c : UInt8}
    (hc : c ≠ ch 'n' ∧ c ≠ ch 'f' ∧ c ≠ ch 't') (rest : Text) :
    parseValue hex (depth + 1) fields (c :: rest) =
      if c = ch '"' then do
        let (fields, cursor) ← parseString hex fields (c :: rest)
        return (fields, .null, cursor)
      else if c = ch '-' ∨ isDigit c then
        pure ((parseNumber fields (c :: rest)).1, .null, .ok (parseNumber fields (c :: rest)).2)
      else if c = ch '[' then
        openChain typeArray (ch ']')
          (fun addr text => parseElements hex depth addr text) fields rest
      else if c = ch '{' then
        openChain typeObject (ch '}')
          (fun addr text => parseMembers hex depth addr text) fields rest
      else pure (fields, .null, .error (some (c :: rest))) := by
  have hword : ∀ (first : UInt8) (word : Text), c ≠ first →
      (first :: word).isPrefixOf (c :: rest) = false := by
    intro first word hne
    rw [List.isPrefixOf, beq_eq_false_iff_ne.mpr hne.symm, Bool.false_and]
  rw [parseValue.eq_def]
  simp only [nullText, falseText, trueText, hword _ _ hc.1, hword _ _ hc.2.1, hword _ _ hc.2.2,
    Bool.false_eq_true, if_false]

/-- What the parser makes of a phrase, read with enough depth in front of any text that
can follow it. -/
def Accepted (D : Type) [Doubles D] (hex : HexScan) : Phrase Numeral → Text → Prop
  | .value json, text => ∀ depth fields rest, 2 * text.length ≤ depth → EndsNumber rest →
      Gives (parseValue hex depth fields (text ++ rest)) fun result =>
        result.2.2 = .ok rest ∧ result.1.string = fields.string ∧
          ∃ value : Value D, result.1.value result.2.1.values = some value ∧
            Alike ReadFrom (.value value) (.value json)
  | .elements elements, text => ∀ depth addr value rest, 2 * text.length + 1 ≤ depth →
      skip value = skip (text ++ ch ']' :: rest) →
      Gives (parseElements (D := D) hex depth addr value) fun result =>
        result.2 = .ok rest ∧
          ∃ values, result.1.values = some (values.map fun json => (none, json)) ∧
            Alike ReadFrom (.elements values) (.elements elements)
  | .members members, text => ∀ depth addr value rest, 2 * text.length + 1 ≤ depth →
      skip value = skip (text ++ ch '}' :: rest) →
      Gives (parseMembers (D := D) hex depth addr value) fun result =>
        result.2 = .ok rest ∧
          ∃ values : List (List UInt8 × Value D),
            result.1.values = some (values.map fun member => (some member.1, member.2)) ∧
              Alike ReadFrom (.members values) (.members members)

/-- A value of a chain, and what follows it. -/
theorem accepted_item {json : Value Numeral} {before text after : Text} (hbefore : Blank before)
    (hbegin : ∃ c rest, text = c :: rest ∧ 32 < c ∧ c ≠ ch ']')
    (hjson : Accepted D hex (.value json) text) (hafter : Blank after) {mark : UInt8}
    (hmark : mark ∈ [ch ',', ch ']', ch '}']) (rest : Text) {depth : Nat}
    (hdepth : 2 * text.length ≤ depth) (fields : Fields D) :
    Gives (parseValue hex depth fields (skip (before ++ (text ++ (after ++ mark :: rest)))))
      fun result => result.2.2 = .ok (after ++ mark :: rest) ∧
        skip (after ++ mark :: rest) = mark :: rest ∧ result.1.string = fields.string ∧
          ∃ value : Value D, result.1.value result.2.1.values = some value ∧
            Alike ReadFrom (.value value) (.value json) := by
  obtain ⟨c, tail, htext, hc, -⟩ := hbegin
  have hskip : skip (before ++ (text ++ (after ++ mark :: rest))) =
      text ++ (after ++ mark :: rest) := by
    rw [htext]
    exact skip_blank_mark hbefore hc _
  have hall : ∀ c ∈ [ch ',', ch ']', ch '}'], 32 < c := by decide +kernel
  rw [hskip]
  refine (hjson depth fields _ hdepth
    (endsNumber_blank hafter (endsNumber_mark hmark rest))).mono ?_
  rintro result ⟨hcursor, hvalue⟩
  exact ⟨hcursor, skip_blank_mark hafter (hall mark hmark) rest, hvalue⟩

theorem accepted_lastElement {json : Value Numeral} {before text after : Text}
    (hbefore : Blank before)
    (hbegin : ∃ c rest, text = c :: rest ∧ 32 < c ∧ c ≠ ch ']')
    (hjson : Accepted D hex (.value json) text) (hafter : Blank after) :
    Accepted D hex (.elements [json]) (before ++ (text ++ after)) := by
  intro depth addr value rest hdepth hvalue
  obtain ⟨depth, rfl⟩ : ∃ less, depth = less + 1 := ⟨depth - 1, by omega⟩
  simp only [List.append_assoc, List.length_append] at hvalue hdepth
  rw [parseElements.eq_def]
  simp only [hvalue]
  refine (accepted_item hex hbefore hbegin hjson hafter (by decide) rest (by omega)
    zeroFields).bind ?_
  rintro ⟨fields, child, _⟩ ⟨rfl, hskip, hstring, value, hvalue, halike⟩
  refine (continueChain_close hskip (by decide)).mono ?_
  rintro _ rfl
  refine ⟨rfl, [value], ?_, halike.element .noElement⟩
  rw [Item.values_node hvalue rfl, hstring]
  rfl

theorem accepted_element {json : Value Numeral} {elements : List (Value Numeral)}
    {before text after rest : Text}
    (hbefore : Blank before) (hbegin : ∃ c rest, text = c :: rest ∧ 32 < c ∧ c ≠ ch ']')
    (hjson : Accepted D hex (.value json) text) (hafter : Blank after)
    (hrest : Accepted D hex (.elements elements) rest) :
    Accepted D hex (.elements (json :: elements))
      (before ++ (text ++ (after ++ ch ',' :: rest))) := by
  intro depth addr value last hdepth hvalue
  obtain ⟨depth, rfl⟩ : ∃ less, depth = less + 1 := ⟨depth - 1, by omega⟩
  simp only [List.append_assoc, List.cons_append, List.length_append, List.length_cons]
    at hvalue hdepth
  rw [parseElements.eq_def]
  simp only [hvalue]
  refine (accepted_item hex hbefore hbegin hjson hafter (by decide) (rest ++ ch ']' :: last)
    (by omega) zeroFields).bind ?_
  rintro ⟨fields, child, _⟩ ⟨rfl, hskip, hstring, value, hvalue, halike⟩
  refine (continueChain_comma hskip fun addr => hrest depth addr _ last (by omega) rfl).mono ?_
  rintro ⟨_, _⟩ ⟨chain, ⟨rfl, values, hchain, hothers⟩, rfl⟩
  refine ⟨rfl, value :: values, ?_, halike.element hothers⟩
  rw [Item.values_node hvalue hchain, hstring]
  rfl

/-- The name of a member and the colon behind it. -/
theorem parseMembers_name {name : List UInt8} {before quoted middle : Text} (hbefore : Blank before)
    (hname : Quoted name quoted) (hmiddle : Blank middle) (depth addr : Nat) {value rest : Text}
    (hvalue : skip value =
      skip (before ++ ch '"' :: (quoted ++ ch '"' :: (middle ++ ch ':' :: rest))))
    {post : Item D × Cursor → Prop}
    (hmember : ∀ fields : Fields D, fields.string.map Str.chars = some name →
      Gives (do
        let (fields, child, cursor) ← parseValue hex depth fields (skip rest)
        continueChain (ch '}') (fun addr text => parseMembers hex depth addr text)
          (.node addr fields child) cursor) post) :
    Gives (parseMembers hex (depth + 1) addr value) post := by
  rw [parseMembers.eq_def]
  simp only [hvalue]
  rw [skip_blank_mark hbefore (by decide)]
  refine (parseString_gives hex zeroFields hname _).bind ?_
  rintro _ ⟨addr, rfl⟩
  simp only [skip_blank_mark hmiddle (show 32 < ch ':' by decide), if_true]
  exact hmember _ rfl

theorem accepted_lastMember {name : List UInt8} {json : Value Numeral}
    {before quoted middle space text after : Text} (hbefore : Blank before)
    (hname : Quoted name quoted) (hmiddle : Blank middle) (hspace : Blank space)
    (hbegin : ∃ c rest, text = c :: rest ∧ 32 < c ∧ c ≠ ch ']')
    (hjson : Accepted D hex (.value json) text) (hafter : Blank after) :
    Accepted D hex (.members [(name, json)])
      (before ++ ch '"' :: (quoted ++ ch '"' :: (middle ++ ch ':' ::
        (space ++ (text ++ after))))) := by
  intro depth addr value rest hdepth hvalue
  obtain ⟨depth, rfl⟩ : ∃ less, depth = less + 1 := ⟨depth - 1, by omega⟩
  simp only [List.append_assoc, List.cons_append, List.length_append, List.length_cons]
    at hvalue hdepth
  refine parseMembers_name hex hbefore hname hmiddle depth addr hvalue fun fields hfields => ?_
  refine (accepted_item hex hspace hbegin hjson hafter (by decide) rest (by omega) fields).bind ?_
  rintro ⟨fields', child, _⟩ ⟨rfl, hskip, hstring, value, hvalue, halike⟩
  refine (continueChain_close hskip (by decide)).mono ?_
  rintro _ rfl
  refine ⟨rfl, [(name, value)], ?_, halike.member name .noMember⟩
  rw [Item.values_node hvalue rfl, hstring, hfields]
  rfl

theorem accepted_member {name : List UInt8} {json : Value Numeral}
    {members : List (List UInt8 × Value Numeral)}
    {before quoted middle space text after rest : Text} (hbefore : Blank before)
    (hname : Quoted name quoted) (hmiddle : Blank middle) (hspace : Blank space)
    (hbegin : ∃ c rest, text = c :: rest ∧ 32 < c ∧ c ≠ ch ']')
    (hjson : Accepted D hex (.value json) text) (hafter : Blank after)
    (hrest : Accepted D hex (.members members) rest) :
    Accepted D hex (.members ((name, json) :: members))
      (before ++ ch '"' :: (quoted ++ ch '"' :: (middle ++ ch ':' ::
        (space ++ (text ++ (after ++ ch ',' :: rest)))))) := by
  intro depth addr value last hdepth hvalue
  obtain ⟨depth, rfl⟩ : ∃ less, depth = less + 1 := ⟨depth - 1, by omega⟩
  simp only [List.append_assoc, List.cons_append, List.length_append, List.length_cons]
    at hvalue hdepth
  refine parseMembers_name hex hbefore hname hmiddle depth addr hvalue fun fields hfields => ?_
  refine (accepted_item hex hspace hbegin hjson hafter (by decide) (rest ++ ch '}' :: last)
    (by omega) fields).bind ?_
  rintro ⟨fields', child, _⟩ ⟨rfl, hskip, hstring, value, hvalue, halike⟩
  refine (continueChain_comma hskip fun addr => hrest depth addr _ last (by omega) rfl).mono ?_
  rintro ⟨_, _⟩ ⟨chain, ⟨rfl, values, hchain, hothers⟩, rfl⟩
  refine ⟨rfl, (name, value) :: values, ?_, halike.member name hothers⟩
  rw [Item.values_node hvalue hchain, hstring, hfields]
  rfl

theorem accepted_string {chars : List UInt8} {text : Text} (htext : Quoted chars text) :
    Accepted D hex (.value (.string chars)) (ch '"' :: (text ++ [ch '"'])) := by
  rintro depth fields rest hdepth -
  simp only [List.length_cons, List.length_append] at hdepth
  obtain ⟨depth, rfl⟩ : ∃ less, depth = less + 1 := ⟨depth - 1, by omega⟩
  simp only [List.cons_append, List.append_assoc, List.nil_append]
  rw [parseValue_mark hex depth fields (by decide), if_pos rfl]
  refine (parseString_gives hex fields htext rest).bind ?_
  rintro _ ⟨addr, rfl⟩
  exact Gives.pure ⟨rfl, rfl, .string chars,
    Fields.value_string _ (Fields.kind_of_type rfl (by decide)), .string chars⟩

theorem accepted_number [Doubles.Exact D] (numeral : Numeral) :
    Accepted D hex (.value (.number numeral)) numeral.text := by
  intro depth fields rest hdepth hrest
  obtain ⟨c, tail, htext, hc⟩ := numeral.begins
  rw [htext, List.length_cons] at hdepth
  obtain ⟨depth, rfl⟩ : ∃ less, depth = less + 1 := ⟨depth - 1, by omega⟩
  have hne : ∀ mark ∈ [ch 'n', ch 'f', ch 't', ch '"'], c ≠ mark := by
    have hmarks : ∀ mark ∈ [ch 'n', ch 'f', ch 't', ch '"'],
        isDigit mark = false ∧ ch '-' ≠ mark := by decide +kernel
    intro mark hmark
    rcases hc with rfl | hdigit
    · exact (hmarks mark hmark).2
    · exact ne_of_digit hdigit (hmarks mark hmark).1
  have hread := parseNumber_eq (D := D) numeral fields hrest
  rw [htext, List.cons_append] at hread ⊢
  rw [parseValue_mark hex depth fields
    ⟨hne _ (by decide), hne _ (by decide), hne _ (by decide)⟩, if_neg (hne _ (by decide)),
    if_pos hc, hread]
  exact Gives.pure ⟨rfl, rfl, .number numeral.double,
    Fields.value_number _ (Fields.kind_of_type rfl (by decide)), .number numeral.double_readFrom⟩

/-- The opening bracket of an array or of an object. -/
theorem parseValue_array (depth : Nat) (fields : Fields D) (rest : Text) :
    parseValue hex (depth + 1) fields (ch '[' :: rest) =
      openChain typeArray (ch ']') (fun addr text => parseElements hex depth addr text) fields
        rest := by
  rw [parseValue_mark hex depth fields (by decide), if_neg (by decide), if_neg (by decide),
    if_pos rfl]

theorem parseValue_object (depth : Nat) (fields : Fields D) (rest : Text) :
    parseValue hex (depth + 1) fields (ch '{' :: rest) =
      openChain typeObject (ch '}') (fun addr text => parseMembers hex depth addr text) fields
        rest := by
  rw [parseValue_mark hex depth fields (by decide), if_neg (by decide), if_neg (by decide),
    if_neg (by decide), if_pos rfl]

theorem skip_skip (text : Text) : skip (skip text) = skip text :=
  List.dropWhile_eq_self_iff.mpr fun hl => List.dropWhile_get_zero_not _ _ hl

/-- The inside of an array begins with a value, that of an object with a name. -/
theorem Derives.skip_elements {elements : List (Value Numeral)} {text : Text}
    (htext : Derives (.elements elements) text) (rest : Text) :
    (skip (text ++ rest)).head? ≠ some (ch ']') := by
  have hhead : ∀ {json : Value Numeral} {before text : Text}, Blank before →
      Derives (.value json) text → ∀ last,
        (skip (before ++ (text ++ last))).head? ≠ some (ch ']') := by
    intro json before text hbefore htext last
    obtain ⟨c, tail, rfl, hc, hclose⟩ := htext.begins
    rw [List.cons_append, skip_blank_mark hbefore hc]
    exact fun heq => hclose (Option.some.inj heq)
  cases htext with
  | lastElement hbefore htext _ =>
      simp only [List.append_assoc]
      exact hhead hbefore htext _
  | element hbefore htext _ _ =>
      simp only [List.append_assoc]
      exact hhead hbefore htext _

theorem Derives.skip_members {members : List (List UInt8 × Value Numeral)} {text : Text}
    (htext : Derives (.members members) text) (rest : Text) :
    (skip (text ++ rest)).head? ≠ some (ch '}') := by
  cases htext with
  | lastMember hbefore | member hbefore =>
      simp only [List.append_assoc, List.cons_append]
      rw [skip_blank_mark hbefore (by decide)]
      exact fun heq => absurd (Option.some.inj heq) (by decide)

theorem accepted_array {elements : List (Value Numeral)} {text : Text}
    (htext : Derives (.elements elements) text)
    (helements : Accepted D hex (.elements elements) text) :
    Accepted D hex (.value (.array elements)) (ch '[' :: (text ++ [ch ']'])) := by
  rintro depth fields rest hdepth -
  simp only [List.length_cons, List.length_append] at hdepth
  obtain ⟨depth, rfl⟩ : ∃ less, depth = less + 1 := ⟨depth - 1, by omega⟩
  simp only [List.cons_append, List.append_assoc, List.nil_append]
  rw [parseValue_array]
  refine (openChain_more (htext.skip_elements _) fun addr =>
    helements depth addr _ rest (by omega) (skip_skip _)).mono ?_
  rintro ⟨_, child, _⟩ ⟨rfl, rfl, values, hchild, halike⟩
  refine ⟨rfl, rfl, .array values, ?_, halike.array⟩
  rw [Fields.value_array _ (Fields.kind_of_type rfl (by decide)), hchild, Option.map_some,
    List.map_map]
  exact congrArg (fun values => some (Value.array values)) (List.map_id values)

theorem accepted_object {members : List (List UInt8 × Value Numeral)} {text : Text}
    (htext : Derives (.members members) text) (hmembers : Accepted D hex (.members members) text) :
    Accepted D hex (.value (.object members)) (ch '{' :: (text ++ [ch '}'])) := by
  rintro depth fields rest hdepth -
  simp only [List.length_cons, List.length_append] at hdepth
  obtain ⟨depth, rfl⟩ : ∃ less, depth = less + 1 := ⟨depth - 1, by omega⟩
  simp only [List.cons_append, List.append_assoc, List.nil_append]
  rw [parseValue_object]
  refine (openChain_more (htext.skip_members _) fun addr =>
    hmembers depth addr _ rest (by omega) (skip_skip _)).mono ?_
  rintro ⟨_, child, _⟩ ⟨rfl, rfl, values, hchild, halike⟩
  refine ⟨rfl, rfl, .object values, ?_, halike.object⟩
  rw [Fields.value_object _ (Fields.kind_of_type rfl (by decide)), hchild, Option.bind_some]
  exact congrArg (Option.map Value.object) (mapM_named values)

theorem accepted_emptyArray {blank : Text} (hblank : Blank blank) :
    Accepted D hex (.value (.array [])) (ch '[' :: (blank ++ [ch ']'])) := by
  rintro depth fields rest hdepth -
  simp only [List.length_cons, List.length_append] at hdepth
  obtain ⟨depth, rfl⟩ : ∃ less, depth = less + 1 := ⟨depth - 1, by omega⟩
  simp only [List.cons_append, List.append_assoc, List.nil_append]
  rw [parseValue_array]
  refine (openChain_empty (skip_blank_mark hblank (by decide) rest)).mono ?_
  rintro _ rfl
  exact ⟨rfl, rfl, .array [], Fields.value_array _ (Fields.kind_of_type rfl (by decide)),
    .array .noElement⟩

theorem accepted_emptyObject {blank : Text} (hblank : Blank blank) :
    Accepted D hex (.value (.object [])) (ch '{' :: (blank ++ [ch '}'])) := by
  rintro depth fields rest hdepth -
  simp only [List.length_cons, List.length_append] at hdepth
  obtain ⟨depth, rfl⟩ : ∃ less, depth = less + 1 := ⟨depth - 1, by omega⟩
  simp only [List.cons_append, List.append_assoc, List.nil_append]
  rw [parseValue_object]
  refine (openChain_empty (skip_blank_mark hblank (by decide) rest)).mono ?_
  rintro _ rfl
  exact ⟨rfl, rfl, .object [], Fields.value_object _ (Fields.kind_of_type rfl (by decide)),
    .object .noMember⟩

theorem accepted_word {word : Text} {value : Value D} {json : Value Numeral} (hword : word ≠ [])
    (halike : Alike ReadFrom (.value value) (.value json)) (set : Fields D → Fields D)
    (hset : ∀ fields, (set fields).string = fields.string ∧
      (set fields).value (some []) = some value)
    (hread : ∀ depth fields rest, parseValue hex (depth + 1) fields (word ++ rest) =
      pure (set fields, .null, .ok rest)) :
    Accepted D hex (.value json) word := by
  rintro depth fields rest hdepth -
  have hlength := List.length_pos_iff.mpr hword
  obtain ⟨depth, rfl⟩ : ∃ less, depth = less + 1 := ⟨depth - 1, by omega⟩
  rw [hread]
  exact Gives.pure ⟨rfl, (hset fields).1, value, (hset fields).2, halike⟩

/-- Every phrase is accepted. The induction is on how its text is derived. -/
theorem Derives.accepted [Doubles.Exact D] {phrase : Phrase Numeral} {text : Text}
    (htext : Derives phrase text) :
    Accepted D hex phrase text := by
  induction htext with
  | null =>
      refine accepted_word hex (by decide) .null (fun fields => { fields with type := typeNull })
        (fun fields => ⟨rfl, Fields.value_null _ (Fields.kind_of_type rfl (by decide))⟩)
          (fun _ _ _ => ?_)
      rw [parseValue.eq_def]
      rfl
  | false =>
      refine accepted_word hex (by decide) .false (fun fields => { fields with type := typeFalse })
        (fun fields => ⟨rfl, Fields.value_false _ (Fields.kind_of_type rfl (by decide))⟩)
          (fun _ _ _ => ?_)
      rw [parseValue.eq_def]
      rfl
  | true =>
      refine accepted_word hex (by decide) .true
        (fun fields => { fields with type := typeTrue, valueint := 1 })
        (fun fields => ⟨rfl, Fields.value_true _ (Fields.kind_of_type rfl (by decide))⟩)
          (fun _ _ _ => ?_)
      rw [parseValue.eq_def]
      rfl
  | number numeral => exact accepted_number hex numeral
  | string htext => exact accepted_string hex htext
  | emptyArray hblank => exact accepted_emptyArray hex hblank
  | array htext ih => exact accepted_array hex htext ih
  | emptyObject hblank => exact accepted_emptyObject hex hblank
  | object htext ih => exact accepted_object hex htext ih
  | lastElement hbefore htext hafter ih =>
      exact accepted_lastElement hex hbefore htext.begins ih hafter
  | element hbefore htext hafter _ ih ihrest =>
      exact accepted_element hex hbefore htext.begins ih hafter ihrest
  | lastMember hbefore hname hmiddle hspace htext hafter ih =>
      exact accepted_lastMember hex hbefore hname hmiddle hspace htext.begins ih hafter
  | member hbefore hname hmiddle hspace htext hafter _ ih ihrest =>
      exact accepted_member hex hbefore hname hmiddle hspace htext.begins ih hafter ihrest

/-- What the parser makes of a text with white space around it. -/
theorem cJSONParseWithOpts_gives [Doubles.Exact D] {json : Value Numeral}
    {before text after : Text} (hbefore : Blank before) (htext : Derives (.value json) text)
    (hafter : Blank after) (requireNullTerminated : Bool) :
    Gives (cJSONParseWithOpts hex (before ++ (text ++ after)) requireNullTerminated)
      fun parsed : Parsed D => ∃ value,
        parsed.root.values = some [(none, value)] ∧ Alike ReadFrom (.value value) (.value json) ∧
        parsed.parseEnd = some (if requireNullTerminated then [] else after) ∧
        parsed.ep = none := by
  have hskip : skip (before ++ (text ++ after)) = text ++ after := by
    obtain ⟨c, rest, rfl, hc, -⟩ := htext.begins
    exact skip_blank_mark hbefore hc _
  have hend : EndsNumber after := by
    have hnil : EndsNumber [] := fun c hc => absurd hc (Option.not_mem_none c)
    have hends := endsNumber_blank hafter hnil
    rwa [List.append_nil] at hends
  have hrest : skip after = [] := by
    have hnil := skip_of_blank hafter []
    rwa [List.append_nil] at hnil
  refine Gives.malloc_bind fun addr => ?_
  rw [hskip]
  refine (htext.accepted hex _ zeroFields after (by simp only [List.length_append]; omega)
    hend).bind ?_
  rintro ⟨fields, child, _⟩ ⟨rfl, hstring, value, hvalue, halike⟩
  have hroot : (Item.node addr fields child .null).values = some [(none, value)] := by
    rw [Item.values_node hvalue rfl, hstring]
    rfl
  cases requireNullTerminated with
  | false => exact Gives.pure ⟨value, hroot, halike, rfl, rfl⟩
  | true =>
      simp only [hrest, if_true]
      exact Gives.pure ⟨value, hroot, halike, rfl, rfl⟩

/-- Every JSON text is read to its end, with white space around it or not, as long as there
is memory: the tree has the value of the text with its numbers read, and the rest is the
white space behind it, or nothing where the text has to end there. -/
theorem json_text_is_accepted [Doubles.Exact D] {json : Value Numeral} {before text after : Text}
    (hbefore : Blank before) (htext : Derives (.value json) text) (hafter : Blank after)
    (requireNullTerminated : Bool) {ledger : Ledger} (hgenerous : ledger.Generous) :
    ∃ (parsed : Parsed D) (final : Ledger) (value : Value D),
      cJSONParseWithOpts hex (before ++ (text ++ after)) requireNullTerminated ledger =
        some (parsed, final) ∧
      parsed.root.values = some [(none, value)] ∧
      Alike ReadFrom (.value value) (.value json) ∧
      parsed.parseEnd = some (if requireNullTerminated then [] else after) ∧ parsed.ep = none := by
  obtain ⟨parsed, final, hrun, -, value, hpost⟩ :=
    cJSONParseWithOpts_gives (D := D) hex hbefore htext hafter requireNullTerminated
      ledger hgenerous
  exact ⟨parsed, final, value, hrun, hpost⟩

/-- `-2.5e1`. -/
def minusTwentyFive : Numeral where
  negative := true
  whole := [ch '2']
  fraction := [ch '5']
  exponent := some
    { mark := ch 'e'
      sign := none
      digits := [ch '1']
      isMark := .inl rfl
      isSign := nofun
      isDigits := by decide +kernel
      someDigits := by decide }
  isWhole := by decide +kernel
  leading := by decide +kernel
  isFraction := by decide +kernel

theorem minusTwentyFive_value : minusTwentyFive.value = -25 := by
  have hmantissa : minusTwentyFive.mantissa = 25 := by decide
  have hpower : minusTwentyFive.power - minusTwentyFive.fraction.length = 0 := by decide
  rw [Numeral.value, hmantissa, hpower, zpow_zero, mul_one]
  norm_num [Numeral.sign, minusTwentyFive]

/-- An array with a number and a string, and white space around it. -/
theorem json_text_is_accepted_small :
    ∃ (parsed : Parsed ℚ) (final : Ledger),
      cJSONParseWithOpts leadingDigits
        ([ch ' '] ++ ((ch '[' :: (([] ++ (minusTwentyFive.text ++ ([] ++ ch ',' ::
          ([ch ' '] ++ ((ch '"' :: ([ch '\\', ch 'n'] ++ [ch '"'])) ++ []))))) ++
            [ch ']'])) ++ [10]))
        true (Ledger.empty fun _ => true) = some (parsed, final) ∧
      parsed.root.values = some [(none, .array [.number (-25), .string [10]])] ∧
      parsed.parseEnd = some [] ∧ parsed.ep = none := by
  have hblank : Blank [] := fun _ hc => absurd hc List.not_mem_nil
  have hspace : Blank [ch ' '] := by simp [Blank]
  have hgenerous : (Ledger.empty fun _ => true).Generous := fun _ => rfl
  have hstring : Derives (.value (.string [10])) (ch '"' :: ([ch '\\', ch 'n'] ++ [ch '"'])) :=
    Derives.string (Quoted.escape (by decide) Quoted.nil)
  obtain ⟨parsed, final, value, hrun, hvalue, halike, hend⟩ :=
    json_text_is_accepted (D := ℚ) leadingDigits hspace
      (Derives.array (Derives.element hblank (Derives.number minusTwentyFive) hblank
        (Derives.lastElement hspace hstring hblank)))
      (show Blank [10] by simp [Blank]) true hgenerous
  refine ⟨parsed, final, hrun, ?_, hend⟩
  cases halike with
  | array helements =>
      cases helements with
      | element hnumber hrest =>
          cases hnumber with
          | number hread =>
              cases hrest with
              | element hstring hrest =>
                  cases hstring
                  cases hrest
                  have hnumber := hread.eq_value ⟨by decide, by decide, by decide⟩
                  rw [hvalue, hnumber, minusTwentyFive_value]

end Values

end McuProxy.Json
