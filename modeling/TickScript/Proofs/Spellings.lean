-- Which texts are read as numbers. A number is spelled as a decimal or a word with at most one
-- sign, or in hexadecimal with at most a minus. There is one kind of text besides that is read as a
-- number: a minus sign before a decimal or word that has a sign already.
import TickScript.Proofs.Numerals

namespace TickScript

open TickScript.Text

variable {cs : List Char} {s : String}

/-! ## Spellings -/

/-- Digits, with or without a point. There is a digit at least. -/
inductive IsMantissa : List Char → Prop
  | whole {digits : List Char} (hne : digits ≠ []) (hdigits : ∀ c ∈ digits, c.isDigit = true) :
      IsMantissa digits
  | point {whole places : List Char} (hne : whole ≠ [] ∨ places ≠ [])
      (hwhole : ∀ c ∈ whole, c.isDigit = true) (hplaces : ∀ c ∈ places, c.isDigit = true) :
      IsMantissa (whole ++ '.' :: places)

/-- A decimal, or a word for infinity or for what is not a number, in letters of either case. -/
inductive IsUnsigned : List Char → Prop
  | decimal {mantissa exponent : List Char} (hmantissa : IsMantissa mantissa)
      (hexponent : IsExponent exponent) : IsUnsigned (mantissa ++ exponent)
  | word {cs : List Char} {word : String} (hword : word ∈ ["inf", "infinity", "nan"])
      (hcs : cs.map Char.toLower = word.toList) : IsUnsigned cs

/-- With one sign, or with none. -/
inductive IsSigned : List Char → Prop
  | mk {sign cs : List Char} (hsign : sign = [] ∨ sign = ['+'] ∨ sign = ['-'])
      (hcs : IsUnsigned cs) : IsSigned (sign ++ cs)

/-- The spelling of a number. -/
inductive IsSpelling : List Char → Prop
  | signed {cs : List Char} (hcs : IsSigned cs) : IsSpelling cs
  | hexadecimal {sign cs : List Char} (hsign : sign = [] ∨ sign = ['-'])
      (hcs : IsHexadecimal cs) : IsSpelling (sign ++ cs)

/-- A minus sign, and a spelling that has a sign already. -/
inductive IsDoublySigned : List Char → Prop
  | mk {sign : Char} {cs : List Char} (hsign : sign = '+' ∨ sign = '-') (hcs : IsUnsigned cs) :
      IsDoublySigned ('-' :: sign :: cs)

theorem exists_head_of_isMantissa (h : IsMantissa cs) :
    ∃ c rest, cs = c :: rest ∧ (c.isDigit = true ∨ c = '.') := by
  cases h with
  | whole hne hdigits =>
    obtain ⟨c, rest, rfl⟩ := List.exists_cons_of_ne_nil hne
    exact ⟨c, rest, rfl, .inl (hdigits c List.mem_cons_self)⟩
  | @point whole places _ hwhole _ =>
    cases whole with
    | nil => exact ⟨'.', places, rfl, .inr rfl⟩
    | cons c rest => exact ⟨c, _, rfl, .inl (hwhole c List.mem_cons_self)⟩

/-- What has no sign is not empty, and it does not begin with a sign. -/
theorem exists_head_of_isUnsigned (h : IsUnsigned cs) :
    ∃ c rest, cs = c :: rest ∧ c ≠ '+' ∧ c ≠ '-' := by
  cases h with
  | decimal hmantissa =>
    obtain ⟨c, rest, rfl, hc⟩ := exists_head_of_isMantissa hmantissa
    refine ⟨c, _, rfl, ?_, ?_⟩ <;> rintro rfl <;> revert hc <;> decide
  | word hword hcs =>
    have hhead : ∃ d rest, cs.map Char.toLower = d :: rest ∧ d ≠ '+' ∧ d ≠ '-' := by
      rw [hcs]
      simp only [List.mem_cons, List.not_mem_nil, or_false] at hword
      rcases hword with rfl | rfl | rfl <;> exact ⟨_, _, rfl, by decide, by decide⟩
    obtain ⟨d, rest, hmap, hplus, hminus⟩ := hhead
    obtain ⟨c, rest, rfl, rfl, rfl⟩ := List.map_eq_cons_iff.mp hmap
    refine ⟨c, rest, rfl, ?_, ?_⟩ <;> rintro rfl
    · exact hplus rfl
    · exact hminus rfl

theorem IsSpelling.ne_nil (h : IsSpelling cs) : cs ≠ [] := by
  cases h with
  | signed h =>
    obtain ⟨-, hcs⟩ := h
    obtain ⟨c, rest, rfl, -⟩ := exists_head_of_isUnsigned hcs
    exact List.append_ne_nil_of_right_ne_nil _ (List.cons_ne_nil c rest)
  | hexadecimal _ hcs =>
    cases hcs
    exact List.append_ne_nil_of_right_ne_nil _ (List.cons_ne_nil _ _)

/-- Behind a minus sign there is no other. -/
theorem IsSpelling.of_minus (h : IsSpelling ('-' :: cs)) : IsHexadecimal cs ∨ IsUnsigned cs := by
  generalize hall : '-' :: cs = all at h
  cases h with
  | signed h =>
    obtain ⟨rfl | rfl | rfl, hcs⟩ := h
    · obtain ⟨c, rest, rfl, -, hminus⟩ := exists_head_of_isUnsigned hcs
      cases hall
      exact absurd rfl hminus
    · cases hall
    · cases hall
      exact .inr hcs
  | hexadecimal hsign hcs =>
    rcases hsign with rfl | rfl
    · cases hcs
      cases hall
    · cases hall
      exact .inl hcs

theorem IsDoublySigned.not_isSpelling (h : IsDoublySigned cs) : ¬IsSpelling cs := by
  obtain ⟨hsign, -⟩ := h
  intro hspelling
  rcases hspelling.of_minus with hhex | hunsigned
  · cases hhex
    revert hsign
    decide
  · obtain ⟨c, rest, heq, hplus, hminus⟩ := exists_head_of_isUnsigned hunsigned
    cases heq
    exact hsign.elim hplus hminus

/-! ## What is read -/

namespace Number

theorem isDigit_of_readDigits? (h : (readDigits? cs).isSome = true) :
    cs ≠ [] ∧ ∀ c ∈ cs, c.isDigit = true := by
  simpa [readDigits?] using h

theorem isSome_readExponent? (cs : List Char) :
    (readExponent? cs).isSome = true ↔ IsExponent cs := by
  refine ⟨fun h => ?_, fun h => Option.isSome_iff_exists.mpr (exists_readExponent? h)⟩
  unfold readExponent? at h
  split at h
  · exact .none
  · rename_i mark rest
    split at h
    · rename_i hmark
      have hmark : mark = 'e' ∨ mark = 'E' := by simpa using hmark
      split at h <;> simp only [bind_pure_comp, Option.map_eq_map, Option.isSome_map] at h <;>
        obtain ⟨hne, hdigits⟩ := isDigit_of_readDigits? h
      · exact .some hmark (.inr (.inr rfl)) hne hdigits
      · exact .some hmark (.inr (.inl rfl)) hne hdigits
      · exact .some hmark (.inl rfl) hne hdigits
    · cases h

theorem isSome_readDecimal?_of {mantissa exponent : List Char} (hmantissa : IsMantissa mantissa)
    (hexponent : IsExponent exponent) : (readDecimal? (mantissa ++ exponent)).isSome = true := by
  have hnil : EndsWord [] := by simp [EndsWord]
  have hhead := head_of_isExponent hexponent hnil
  rw [List.append_nil] at hhead
  have hread := (isSome_readExponent? exponent).mpr hexponent
  cases hmantissa with
  | whole hne hdigits =>
    obtain ⟨htake, hdrop⟩ := takeWhile_append hdigits fun c hc => (hhead c hc).1
    simp only [readDecimal?, htake, hdrop]
    split
    · exact absurd rfl (hhead '.' rfl).2.1
    · simp [hne, hread]
  | @point whole places hne hwhole hplaces =>
    have hpoint : ∀ c ∈ ('.' :: (places ++ exponent)).head?, c.isDigit = false := by
      intro c hc
      cases hc
      decide
    obtain ⟨htake, hdrop⟩ := takeWhile_append hwhole hpoint
    obtain ⟨htake', hdrop'⟩ := takeWhile_append hplaces fun c hc => (hhead c hc).1
    have hsome : (whole.isEmpty && places.isEmpty) = false := by simpa [imp_iff_not_or] using hne
    rw [List.append_assoc, List.cons_append]
    simp [readDecimal?, htake, hdrop, htake', hdrop', hsome, hread]

theorem of_isSome_readDecimal? (h : (readDecimal? cs).isSome = true) :
    ∃ mantissa exponent, cs = mantissa ++ exponent ∧ IsMantissa mantissa ∧ IsExponent exponent := by
  have hwhole : ∀ c ∈ cs.takeWhile Char.isDigit, c.isDigit = true := fun c => List.mem_takeWhile_imp
  have hsplit := cs.takeWhile_append_dropWhile (p := Char.isDigit)
  unfold readDecimal? at h
  dsimp only at h
  generalize cs.takeWhile Char.isDigit = whole at h hwhole hsplit
  generalize cs.dropWhile Char.isDigit = tail at h hsplit
  subst hsplit
  -- Whether there is a point behind the first digits decides where the exponent begins.
  split at h
  · rename_i tail
    have hplaces : ∀ c ∈ tail.takeWhile Char.isDigit, c.isDigit = true :=
      fun c => List.mem_takeWhile_imp
    split at h
    · cases h
    · rename_i hne
      rw [Option.isSome_map, isSome_readExponent?] at h
      refine ⟨whole ++ '.' :: tail.takeWhile Char.isDigit, _, ?_, .point ?_ hwhole hplaces, h⟩
      · rw [List.append_assoc, List.cons_append, List.takeWhile_append_dropWhile]
      · simpa [imp_iff_not_or] using hne
  · split at h
    · cases h
    · rename_i hne
      rw [Option.isSome_map, isSome_readExponent?] at h
      exact ⟨whole, _, rfl, .whole (by simpa using hne) hwhole, h⟩

theorem isSome_readUnsigned? (cs : List Char) :
    (readUnsigned? cs).isSome = true ↔ IsUnsigned cs := by
  have hlower (word : String) : String.ofList (cs.map Char.toLower) = word ↔
      cs.map Char.toLower = word.toList := by
    rw [← String.toList_inj, String.toList_ofList]
  simp only [readUnsigned?, Bool.or_eq_true, decide_eq_true_eq, hlower]
  constructor
  · intro h
    split at h
    · rename_i hword
      rcases hword with hcs | hcs
      · exact .word (by simp) hcs
      · exact .word (by simp) hcs
    · split at h
      · rename_i hcs
        exact .word (by simp) hcs
      · obtain ⟨mantissa, exponent, rfl, hmantissa, hexponent⟩ := of_isSome_readDecimal? h
        exact .decimal hmantissa hexponent
  · intro h
    split
    · rfl
    · split
      · rfl
      · rename_i hinfinity hnan
        cases h with
        | decimal hmantissa hexponent => exact isSome_readDecimal?_of hmantissa hexponent
        | word hword hcs =>
          simp only [List.mem_cons, List.not_mem_nil, or_false] at hword
          rcases hword with rfl | rfl | rfl
          · exact absurd (.inl hcs) hinfinity
          · exact absurd (.inr hcs) hinfinity
          · exact absurd hcs hnan

theorem isSome_readSigned? (cs : List Char) : (readSigned? cs).isSome = true ↔ IsSigned cs := by
  constructor
  · intro h
    unfold readSigned? at h
    split at h
    · exact .mk (.inr (.inl rfl)) ((isSome_readUnsigned? _).mp h)
    · rw [Option.isSome_map] at h
      exact .mk (.inr (.inr rfl)) ((isSome_readUnsigned? _).mp h)
    · exact .mk (.inl rfl) ((isSome_readUnsigned? _).mp h)
  · rintro @⟨sign, cs, hsign, hcs⟩
    have hread := (isSome_readUnsigned? _).mpr hcs
    rcases hsign with rfl | rfl | rfl
    · obtain ⟨c, rest, rfl, hplus, hminus⟩ := exists_head_of_isUnsigned hcs
      simpa [readSigned?, hplus, hminus] using hread
    · exact hread
    · simpa [readSigned?] using hread

theorem isSome_hexDigit? (c : Char) : (hexDigit? c).isSome = isHexDigit c := by
  unfold hexDigit? isHexDigit
  split
  · simp_all
  · split
    · simp_all
    · split <;> simp_all

theorem isSome_readHex? (digits : List Char) :
    (readHex? digits).isSome = true ↔ ∀ c ∈ digits, isHexDigit c = true := by
  refine ⟨fun h => ?_, fun h => Option.isSome_iff_exists.mpr (exists_readHex? h)⟩
  unfold readHex? at h
  generalize (0 : Float) = acc at h
  induction digits generalizing acc with
  | nil => exact List.forall_mem_nil _
  | cons c digits ih =>
    rw [List.foldlM_cons] at h
    cases hc : hexDigit? c with
    | none =>
      rw [hc] at h
      cases h
    | some d =>
      rw [hc] at h
      exact List.forall_mem_cons.mpr ⟨by rw [← isSome_hexDigit?, hc]; rfl, ih _ h⟩

theorem hexDigits?_eq_some_iff {digits : List Char} :
    hexDigits? cs = some digits ↔
      ∃ mark, (mark = 'x' ∨ mark = 'X') ∧ cs = '0' :: mark :: digits := by
  constructor
  · intro h
    unfold hexDigits? at h
    split at h <;> cases h
    · exact ⟨'x', .inl rfl, rfl⟩
    · exact ⟨'X', .inr rfl, rfl⟩
  · rintro ⟨mark, rfl | rfl, rfl⟩ <;> rfl

/-- The mark of a hexadecimal number is nowhere in a decimal. -/
theorem readSigned?_of_hexDigits? {digits : List Char} (h : hexDigits? cs = some digits) :
    readSigned? cs = none := by
  obtain ⟨mark, hmark, rfl⟩ := hexDigits?_eq_some_iff.mp h
  have hdecimal : readDecimal? ('0' :: mark :: digits) = none := by
    rcases hmark with rfl | rfl <;> rfl
  have hword (word : String) (hhead : word.toList.head? ≠ some '0') :
      String.ofList (('0' :: mark :: digits).map Char.toLower) ≠ word := by
    rintro rfl
    simp at hhead
  change readUnsigned? _ = none
  simp only [readUnsigned?, hword "inf" (by decide), hword "infinity" (by decide),
    hword "nan" (by decide), decide_false, Bool.or_self, Bool.false_eq_true, ↓reduceIte, hdecimal]

theorem isSome_readMagnitude? (cs : List Char) :
    (readMagnitude? cs).isSome = true ↔ IsHexadecimal cs ∨ IsSigned cs := by
  rw [← isSome_readSigned?]
  cases hhex : hexDigits? cs with
  | none =>
    have hnot : ¬IsHexadecimal cs := by
      rintro ⟨hmark, -, -⟩
      cases hhex.symm.trans (hexDigits?_eq_some_iff.mpr ⟨_, hmark, rfl⟩)
    simp only [readMagnitude?, hhex, hnot, false_or]
  | some digits =>
    obtain ⟨mark, hmark, rfl⟩ := hexDigits?_eq_some_iff.mp hhex
    have hiff : IsHexadecimal ('0' :: mark :: digits) ↔
        digits ≠ [] ∧ (readHex? digits).isSome = true := by
      rw [isSome_readHex?]
      constructor
      · rintro ⟨-, hne, hdigits⟩
        exact ⟨hne, hdigits⟩
      · rintro ⟨hne, hdigits⟩
        exact .mk hmark hne hdigits
    rw [hiff, readSigned?_of_hexDigits? hhex]
    cases digits with
    | nil => simp [readMagnitude?, hhex]
    | cons c digits => simp [readMagnitude?, hhex]

theorem isSome_read? (s : String) :
    (read? s).isSome = true ↔
      IsSpelling (trimChars s.toList) ∨ IsDoublySigned (trimChars s.toList) := by
  unfold read?
  generalize trimChars s.toList = cs
  split
  · rename_i rest
    rw [Option.isSome_map, isSome_readMagnitude?]
    constructor
    · rintro (hhex | hsigned)
      · exact .inl (.hexadecimal (.inr rfl) hhex)
      · obtain @⟨sign, cs, hsign, hcs⟩ := hsigned
        rcases hsign with rfl | rfl | rfl
        · exact .inl (.signed (.mk (.inr (.inr rfl)) hcs))
        · exact .inr (.mk (.inl rfl) hcs)
        · exact .inr (.mk (.inr rfl) hcs)
    · rintro (hspelling | hdouble)
      · exact hspelling.of_minus.imp_right (.mk (.inl rfl))
      · obtain ⟨rfl | rfl, hcs⟩ := hdouble
        · exact .inr (.mk (.inr (.inl rfl)) hcs)
        · exact .inr (.mk (.inr (.inr rfl)) hcs)
  · rename_i hminus
    rw [isSome_readMagnitude?]
    constructor
    · rintro (hhex | hsigned)
      · exact .inl (.hexadecimal (.inl rfl) hhex)
      · exact .inl (.signed hsigned)
    · rintro (hspelling | hdouble)
      · obtain hsigned | ⟨rfl | rfl, hhex⟩ := hspelling
        · exact .inr hsigned
        · exact .inl hhex
        · exact absurd rfl (hminus _)
      · obtain ⟨-, -⟩ := hdouble
        exact absurd rfl (hminus _)

end Number

/-! ## Blanks around it -/

theorem isBlank_of_toLower {c : Char} (h : isBlank c.toLower = false) : isBlank c = false := by
  unfold Char.toLower at h
  split at h
  · rename_i hupper
    have hleast : 65 ≤ c.toNat := hupper.1
    have hmost : c.toNat ≤ 90 := hupper.2
    exact isBlank_of_continuesName
      (continuesName_of_isAlpha (by omega) ((isAlpha_iff c).mpr (by omega)))
  · exact h

theorem isBlank_of_isMantissa (h : IsMantissa cs) : ∀ c ∈ cs, isBlank c = false := by
  intro c hc
  cases h with
  | whole _ hdigits => exact isBlank_of_isDigit (hdigits c hc)
  | point _ hwhole hplaces =>
    rcases List.mem_append.mp hc with hc | hc
    · exact isBlank_of_isDigit (hwhole c hc)
    rcases List.mem_cons.mp hc with rfl | hc
    · decide
    · exact isBlank_of_isDigit (hplaces c hc)

theorem isBlank_of_isUnsigned (h : IsUnsigned cs) : ∀ c ∈ cs, isBlank c = false := by
  intro c hc
  cases h with
  | decimal hmantissa hexponent =>
    rcases List.mem_append.mp hc with hc | hc
    · exact isBlank_of_isMantissa hmantissa c hc
    · exact isBlank_of_isExponent hexponent c hc
  | @word _ word hword hcs =>
    have hall : word.toList.all (fun d => !isBlank d) = true := by
      simp only [List.mem_cons, List.not_mem_nil, or_false] at hword
      rcases hword with rfl | rfl | rfl <;> decide
    have hlower : c.toLower ∈ word.toList := hcs ▸ List.mem_map_of_mem hc
    exact isBlank_of_toLower (by simpa using List.all_eq_true.mp hall _ hlower)

theorem isBlank_of_sign {sign : List Char} (hsign : sign = [] ∨ sign = ['+'] ∨ sign = ['-'])
    (hcs : ∀ c ∈ cs, isBlank c = false) : ∀ c ∈ sign ++ cs, isBlank c = false := by
  rcases hsign with rfl | rfl | rfl
  · exact hcs
  · exact List.forall_mem_cons.mpr ⟨by decide, hcs⟩
  · exact List.forall_mem_cons.mpr ⟨by decide, hcs⟩

theorem isBlank_of_isSpelling (h : IsSpelling cs) : ∀ c ∈ cs, isBlank c = false := by
  cases h with
  | signed h =>
    obtain ⟨hsign, hcs⟩ := h
    exact isBlank_of_sign hsign (isBlank_of_isUnsigned hcs)
  | hexadecimal hsign hcs =>
    exact isBlank_of_sign (hsign.imp_right .inr) (isBlank_of_isHexadecimal hcs)

theorem isBlank_of_isDoublySigned (h : IsDoublySigned cs) : ∀ c ∈ cs, isBlank c = false := by
  obtain ⟨hsign, hcs⟩ := h
  have hsigned := isBlank_of_sign (.inr (hsign.imp (congrArg ([·])) (congrArg ([·]))))
    (isBlank_of_isUnsigned hcs)
  exact List.forall_mem_cons.mpr ⟨by decide, hsigned⟩

/-- The text is this, with blanks before and after it. -/
def Surrounds (s : String) (cs : List Char) : Prop :=
  ∃ before after : List Char, s.toList = before ++ (cs ++ after) ∧
    (∀ c ∈ before, isBlank c = true) ∧ ∀ c ∈ after, isBlank c = true

theorem surrounds_trimChars (s : String) : Surrounds s (trimChars s.toList) := by
  refine ⟨s.toList.takeWhile isBlank,
    ((s.toList.dropWhile isBlank).reverse.takeWhile isBlank).reverse, ?_,
    fun c => List.mem_takeWhile_imp, fun c hc => List.mem_takeWhile_imp (List.mem_reverse.mp hc)⟩
  rw [trimChars, ← List.reverse_append, List.takeWhile_append_dropWhile, List.reverse_reverse,
    List.takeWhile_append_dropWhile]

theorem dropWhile_blanks {blanks : List Char} (hblanks : ∀ c ∈ blanks, isBlank c = true)
    (hcs : ∀ c ∈ cs, isBlank c = false) (hne : cs ≠ []) (rest : List Char) :
    (blanks ++ (cs ++ rest)).dropWhile isBlank = cs ++ rest := by
  obtain ⟨c, cs, rfl⟩ := List.exists_cons_of_ne_nil hne
  refine (takeWhile_append hblanks fun d hd => ?_).2
  cases hd
  exact hcs c List.mem_cons_self

theorem Surrounds.trimChars_eq (h : Surrounds s cs) (hcs : ∀ c ∈ cs, isBlank c = false)
    (hne : cs ≠ []) : trimChars s.toList = cs := by
  obtain ⟨before, after, hs, hbefore, hafter⟩ := h
  have hback := dropWhile_blanks (fun c hc => hafter c (List.mem_reverse.mp hc))
    (fun c hc => hcs c (List.mem_reverse.mp hc)) (List.reverse_ne_nil_iff.mpr hne) []
  rw [List.append_nil, ← List.reverse_append] at hback
  rw [hs, trimChars, dropWhile_blanks hbefore hcs hne, hback, List.reverse_reverse]

theorem Surrounds.trimChars_of_isSpelling (h : Surrounds s cs) (hcs : IsSpelling cs) :
    trimChars s.toList = cs :=
  h.trimChars_eq (isBlank_of_isSpelling hcs) hcs.ne_nil

theorem Surrounds.trimChars_of_isDoublySigned (h : Surrounds s cs) (hcs : IsDoublySigned cs) :
    trimChars s.toList = cs := by
  refine h.trimChars_eq (isBlank_of_isDoublySigned hcs) ?_
  cases hcs
  exact List.cons_ne_nil _ _

/-- A text with two signs has no spelling in it. -/
theorem Surrounds.not_isSpelling (h : Surrounds s cs) (hcs : IsDoublySigned cs) :
    ¬∃ other, Surrounds s other ∧ IsSpelling other := by
  rintro ⟨other, hother, hspelling⟩
  have hsame := (hother.trimChars_of_isSpelling hspelling).symm.trans
    (h.trimChars_of_isDoublySigned hcs)
  exact hcs.not_isSpelling (hsame ▸ hspelling)

/-- A text is read as a number exactly if it is the spelling of one, or if it is one that has a sign
with a minus sign before it, with blanks around it. No text is both. -/
theorem read_numbers_are_spelled_or_doubly_signed (s : String) :
    ((Number.read? s).isSome = true ↔
      (∃ cs, Surrounds s cs ∧ IsSpelling cs) ∨ ∃ cs, Surrounds s cs ∧ IsDoublySigned cs) ∧
    ¬((∃ cs, Surrounds s cs ∧ IsSpelling cs) ∧ ∃ cs, Surrounds s cs ∧ IsDoublySigned cs) := by
  rw [Number.isSome_read?]
  refine ⟨⟨?_, ?_⟩, ?_⟩
  · rintro (hspelling | hdouble)
    · exact .inl ⟨_, surrounds_trimChars s, hspelling⟩
    · exact .inr ⟨_, surrounds_trimChars s, hdouble⟩
  · rintro (⟨cs, hs, hspelling⟩ | ⟨cs, hs, hdouble⟩)
    · rw [hs.trimChars_of_isSpelling hspelling]
      exact .inl hspelling
    · rw [hs.trimChars_of_isDoublySigned hdouble]
      exact .inr hdouble
  · rintro ⟨hspelled, cs, hs, hdouble⟩
    exact hs.not_isSpelling hdouble hspelled

/-- Two minus signs before a five spell no number, but they are read as one. -/
theorem two_minus_signs_are_read :
    (Number.read? "--5").isSome = true ∧
      ¬∃ cs, Surrounds "--5" cs ∧ IsSpelling cs := by
  have hdigit : IsMantissa ['5'] := .whole (List.cons_ne_nil _ _) (List.all_eq_true.mp (by decide))
  have hfive : IsUnsigned ['5'] := .decimal hdigit .none
  have hs : Surrounds "--5" ['-', '-', '5'] :=
    ⟨[], [], rfl, List.forall_mem_nil _, List.forall_mem_nil _⟩
  exact ⟨by decide, hs.not_isSpelling (.mk (.inr rfl) hfive)⟩

end TickScript
