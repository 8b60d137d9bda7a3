-- Literals: numerals, with a minus sign or without, and quoted texts. A literal is read as the same
-- value wherever it stands: in the list of arguments of a console line, and among the arguments of
-- a call in a script.
import TickScript.Console.Arguments
import TickScript.Proofs.Numerals
import TickScript.Proofs.ReadingBack
import TickScript.Proofs.Tables

namespace TickScript

open TickScript.Text

variable {rest blanks : List Char} {strict : Bool} {previous : Option TokenKind} {xs : List Lexeme}
  {x : Float}

/-! ## Literals -/

/-- A numeral, perhaps with a minus sign directly before it, or a quoted text. -/
inductive Literal where
  | numeral (isNegative : Bool) (n : Lexeme) (h : n.IsNumeral)
  | text (s : String) (h : '\'' ∉ s.toList)

namespace Literal

def value : Literal → Value
  | numeral isNegative n _ => .number (if isNegative then -n.magnitude else n.magnitude)
  | text s _ => .text s

def isNegative : Literal → Bool
  | numeral isNegative _ _ => isNegative
  | text _ _ => false

/-- The literal without its sign. -/
def lexeme : Literal → Lexeme
  | numeral _ n _ => n
  | text s _ => ⟨.text, s⟩

/-- The characters that a literal is written with. -/
def spelled (a : Literal) : List Char :=
  if a.isNegative then '-' :: a.lexeme.spelled else a.lexeme.spelled

/-- The lexemes of a literal where an operator has this kind. -/
def lexemes (sign : TokenKind) (a : Literal) : List Lexeme :=
  if a.isNegative then [⟨sign, "-"⟩, a.lexeme] else [a.lexeme]

/-- The tree of a literal. -/
def tree : Literal → Expr
  | numeral true n _ => .unary "-" (.number n.magnitude) .nowhere
  | numeral false n _ => .number n.magnitude
  | text s _ => .text s

theorem spelled_ne_nil (a : Literal) : a.spelled ≠ [] := by
  cases a with
  | text s h => simp [spelled, isNegative, lexeme, Lexeme.spelled, TokenKind.spell]
  | numeral isNegative n h =>
    have hstarts := h.spells.startsNumber_surface []
    cases isNegative with
    | true => simp [spelled, Literal.isNegative]
    | false =>
      intro hnil
      have hsurface : n.surface.toList = [] := h.spells.spelled_eq.symm.trans hnil
      rw [hsurface] at hstarts
      cases hstarts

/-- A literal neither begins nor ends with a blank. -/
theorem trimmed_spelled (a : Literal) : Trimmed a.spelled := by
  cases a with
  | text s h =>
    have hquote : Trimmed ['\''] :=
      trimmed_of_not_blank (List.forall_mem_singleton.mpr (by decide))
    exact hquote.append (by simp) hquote (by simp) s.toList
  | numeral isNegative n h =>
    have hsurface := h.spells.isBlank_surface
    rw [← h.spells.spelled_eq] at hsurface
    cases isNegative with
    | true => exact trimmed_of_not_blank (List.forall_mem_cons.mpr ⟨by decide, hsurface⟩)
    | false => exact trimmed_of_not_blank hsurface

/-- A literal is read up to its end, the sign aside. -/
theorem readPiece_lexeme (a : Literal) (hrest : EndsWord rest) (kind : TokenKind) :
    ∃ c tail, a.lexeme.spelled ++ rest = c :: tail ∧ isBlank c = false ∧
      readPiece Language.standard.operators kind c tail =
        .ok ⟨a.lexeme.kind, a.lexeme.surface.toList, a.lexeme.spelled, rest⟩ := by
  cases a with
  | numeral _ n h =>
    dsimp only [lexeme]
    rw [h.spells.spelled_eq]
    exact readPiece_of_number (h.spells.startsNumber_surface rest)
      (h.spells.readNumber_surface hrest) _ kind
  | text s h =>
    exact (Lexeme.Legal.text h).readPiece Language.knows_standard ⟨nofun, nofun, nofun⟩ nofun

end Literal

/-- A minus sign is read alone before a numeral: no longer operator fits there. -/
theorem readPiece_minus {cs : List Char} (hcs : startsNumber cs = true) (kind : TokenKind) :
    readPiece Language.standard.operators kind '-' cs = .ok ⟨kind, ['-'], ['-'], cs⟩ := by
  have hsign : StartsSign '-' cs :=
    ⟨by simp [startsNumber], by decide, by decide, by decide, by decide⟩
  have hlongest : IsLongest standardSpellings ('-' :: cs) "-" := by
    refine ⟨by decide, ⟨cs, rfl⟩, ?_⟩
    rcases cs with _ | ⟨d, cs⟩
    · cases hcs
    have hd : '>' ≠ d := by
      rintro rfl
      exact absurd hcs (by simp [startsNumber])
    simp [standardSpellings, List.cons_prefix_cons, hd]
  rw [readPiece_of_sign hsign,
    readOperator_of_longest Language.knows_standard hlongest (by decide) kind]
  rfl

/-! ## Texts that are read as lexemes -/

/-- The kind of an operator behind a token of this kind, or at the very start. -/
def TokenKind.ofSign (previous : Option TokenKind) : TokenKind :=
  if precedesUnary previous then .unary else .operator

theorem TokenKind.ofSign_cases (previous : Option TokenKind) :
    ofSign previous = .unary ∨ ofSign previous = .operator := by
  unfold ofSign
  split
  · exact Or.inl rfl
  · exact Or.inr rfl

theorem TokenKind.not_clashes_of_precedesUnary {kind : TokenKind}
    (h : precedesUnary (some kind) = true) (next : TokenKind) : kind.clashes next = false := by
  cases kind with
  | operator | unary | opening | comma => rfl
  | name | call | number | hex | text | closing => cases h

/-- The text is read as these lexemes where it stands behind a token of the given kind, or at the
very start. -/
def Lexes (strict : Bool) (previous : Option TokenKind) (cs : List Char) (xs : List Lexeme) :
    Prop :=
  ∀ (source : Source) (l : Lexer), l.failed = false → l.strict = strict →
    l.previous.map (·.kind) = previous → l.rest = cs →
    ∃ tokens, l.Emits Language.standard.operators source tokens none ∧
      tokens.map Token.lexeme = xs

theorem lexes_nil (strict : Bool) (previous : Option TokenKind) : Lexes strict previous [] [] := by
  intro source l hfailed _ _ hrest
  exact ⟨[], .finished (Lexer.next_of_blanks _ source hfailed (by simp [hrest])), rfl⟩

theorem Lexes.cons {x : Lexeme} (hblanks : ∀ c ∈ blanks, isBlank c = true)
    (hread : ∃ c tail, x.spelled ++ rest = c :: tail ∧ isBlank c = false ∧
      readPiece Language.standard.operators (.ofSign previous) c tail =
        .ok ⟨x.kind, x.surface.toList, x.spelled, rest⟩)
    (hclash : strict = true → ∀ kind ∈ previous, kind.clashes x.kind = false)
    (h : Lexes strict (some x.kind) rest xs) :
    Lexes strict previous (blanks ++ (x.spelled ++ rest)) (x :: xs) := by
  rintro source l hfailed rfl rfl hrest
  refine Lexer.emits_cons hfailed hblanks hrest hread (fun t ht hstrict => ?_) (h source)
  exact hclash hstrict t.kind (Option.mem_map_of_mem _ ht)

/-- A lexeme that ends by itself is read before whatever stands behind it. -/
theorem Lexes.closed {x : Lexeme} (hx : x.Legal standardSpellings)
    (hkind : x.kind.isOpenEnded = false)
    (hclash : strict = true → ∀ kind ∈ previous, kind.clashes x.kind = false)
    (h : Lexes strict (some x.kind) rest xs) :
    Lexes strict previous (x.spelled ++ rest) (x :: xs) := by
  have hopen : x.kind.isOpenEnded ≠ true := Bool.eq_false_iff.mp hkind
  have hoperator : ¬ (x.kind = .operator ∨ x.kind = .unary) := by
    rintro (hx | hx) <;> exact hopen (by rw [hx]; rfl)
  have hends : x.EndsBefore standardSpellings rest :=
    ⟨fun h => absurd h hopen, fun h => absurd h hopen, fun h => absurd h hoperator⟩
  exact .cons (List.forall_mem_nil _)
    (hx.readPiece Language.knows_standard hends fun h => absurd h hoperator) hclash h

/-- A sign is read before a numeral, if the numeral is read behind the sign. -/
theorem Lexes.minus {cs : List Char} (hblanks : ∀ c ∈ blanks, isBlank c = true)
    (hcs : startsNumber cs = true) (h : Lexes strict (some (.ofSign previous)) cs xs) :
    Lexes strict previous (blanks ++ '-' :: cs) (⟨.ofSign previous, "-"⟩ :: xs) := by
  have hspelled : Lexeme.spelled ⟨.ofSign previous, "-"⟩ = ['-'] := by
    rcases TokenKind.ofSign_cases previous with hsign | hsign <;> rw [hsign] <;> rfl
  have hread : ∃ c tail, Lexeme.spelled ⟨.ofSign previous, "-"⟩ ++ cs = c :: tail ∧
      isBlank c = false ∧ readPiece Language.standard.operators (.ofSign previous) c tail =
        .ok ⟨.ofSign previous, "-".toList, Lexeme.spelled ⟨.ofSign previous, "-"⟩, cs⟩ := by
    rw [hspelled]
    exact ⟨'-', cs, rfl, by decide, readPiece_minus hcs _⟩
  have hclash : ∀ kind ∈ previous, kind.clashes (.ofSign previous) = false := by
    intro kind _
    rcases TokenKind.ofSign_cases previous with hsign | hsign <;> rw [hsign] <;>
      simp [TokenKind.clashes, TokenKind.startsOperand]
  have hcons := Lexes.cons hblanks hread (fun _ => hclash) h
  rwa [hspelled] at hcons

/-- A literal is read before whatever ends it. -/
theorem Literal.lexes (a : Literal) (previous : Option TokenKind)
    (hblanks : ∀ c ∈ blanks, isBlank c = true) (hrest : EndsWord rest)
    (hprevious : strict = true → TokenKind.precedesUnary previous = true)
    (h : Lexes strict (some a.lexeme.kind) rest xs) :
    Lexes strict previous (blanks ++ (a.spelled ++ rest)) (a.lexemes (.ofSign previous) ++ xs) := by
  have hlexeme : ∀ (blanks : List Char) (previous : Option TokenKind),
      (∀ c ∈ blanks, isBlank c = true) →
      (strict = true → TokenKind.precedesUnary previous = true) →
      Lexes strict previous (blanks ++ (a.lexeme.spelled ++ rest)) (a.lexeme :: xs) := by
    intro blanks previous hblanks hprevious
    refine .cons hblanks (a.readPiece_lexeme hrest _) (fun hstrict kind hkind => ?_) h
    rw [Option.mem_def.mp hkind] at hprevious
    exact TokenKind.not_clashes_of_precedesUnary (hprevious hstrict) _
  cases a with
  | text s hs => exact hlexeme blanks previous hblanks hprevious
  | numeral isNegative n hn =>
    cases isNegative with
    | false => exact hlexeme blanks previous hblanks hprevious
    | true =>
      have hstarts : startsNumber (n.spelled ++ rest) = true := by
        rw [hn.spells.spelled_eq]
        exact hn.spells.startsNumber_surface rest
      refine Lexes.minus hblanks hstarts (hlexeme [] _ nofun fun _ => ?_)
      rcases TokenKind.ofSign_cases previous with hsign | hsign <;> rw [hsign] <;> rfl

/-! ## In the arguments of a line -/

/-- What the tokens of a list of arguments come to, behind the arguments that are already read. -/
def takeArguments (globals : Registry Value) :
    Bool → List Value → List Lexeme → Except InvokeFault (List Value)
  | _, args, [] => .ok args
  | sign, args, x :: xs =>
    match takeArgument globals sign ⟨x.kind, x.surface, .start⟩ with
    | .error e => .error e
    | .ok none => takeArguments globals true args xs
    | .ok (some v) => takeArguments globals false (args ++ [v]) xs

theorem readArguments_of_emits {ops : OperatorTable} {source : Source} {l : Lexer}
    {tokens : List Token} (h : l.Emits ops source tokens none) (hfailed : l.failed = false)
    {fuel : Nat} (hfuel : l.rest.length < fuel) (globals : Registry Value) (sign : Bool)
    (args : List Value) :
    readArguments ops source globals fuel l sign args =
      takeArguments globals sign args (tokens.map Token.lexeme) := by
  generalize hending : (none : Option Fault) = ending at h
  induction h generalizing fuel sign args with
  | finished h =>
    obtain ⟨fuel, rfl⟩ : ∃ f, fuel = f + 1 := ⟨fuel - 1, by omega⟩
    simp [readArguments, h, takeArguments]
  | fault h => cases hending
  | @token l after t tokens ending h hrest ih =>
    obtain ⟨fuel, rfl⟩ : ∃ f, fuel = f + 1 := ⟨fuel - 1, by omega⟩
    obtain ⟨c, rest, p, hblanks, hpiece, rfl, rfl⟩ := Lexer.of_next_token hfailed h
    have hlt := Lexer.length_past_lt hblanks hpiece
    have hshorter : (l.past p).rest.length < fuel := by omega
    -- Where the token stands does not matter.
    have hplace : takeArgument globals sign
        ⟨(l.tokenOf p).lexeme.kind, (l.tokenOf p).lexeme.surface, .start⟩ =
        takeArgument globals sign (l.tokenOf p) := rfl
    simp only [readArguments, h, List.map_cons, takeArguments, hplace]
    rcases takeArgument globals sign (l.tokenOf p) with e | _ | v
    · rfl
    · exact ih hfailed hshorter true args hending
    · exact ih hfailed hshorter false (args ++ [v]) hending

theorem takeArgument_numeral {n : Lexeme} (hn : n.Spells x) (globals : Registry Value) (sign : Bool)
    (place : Place) :
    takeArgument globals sign ⟨n.kind, n.surface, place⟩ =
      .ok (some (.number (if sign then -x else x))) := by
  have hread := hn.read?
  have hminus := hn.read?_minus
  cases hn with
  | decimal => cases sign <;> simp_all [takeArgument]
  | hexadecimal => cases sign <;> simp_all [takeArgument]

/-- A sign is kept for the numeral, whatever kind it has. -/
theorem takeArgument_minus (globals : Registry Value) (previous : Option TokenKind)
    (place : Place) :
    takeArgument globals false ⟨.ofSign previous, "-", place⟩ = .ok none := by
  rcases TokenKind.ofSign_cases previous with hsign | hsign <;> simp [takeArgument, hsign]

/-- A literal is taken as its value. -/
theorem takeArguments_literal (a : Literal) (previous : Option TokenKind)
    (globals : Registry Value) (args : List Value) (xs : List Lexeme) :
    takeArguments globals false args (a.lexemes (.ofSign previous) ++ xs) =
      takeArguments globals false (args ++ [a.value]) xs := by
  cases a with
  | text s h => rfl
  | numeral isNegative n h =>
    cases isNegative with
    | false =>
      have hn := takeArgument_numeral h.spells globals false .start
      simp [Literal.lexemes, Literal.isNegative, Literal.lexeme, Literal.value, takeArguments, hn]
    | true =>
      have hsign := takeArgument_minus globals previous .start
      have hn := takeArgument_numeral h.spells globals true .start
      simp [Literal.lexemes, Literal.isNegative, Literal.lexeme, Literal.value, takeArguments,
        hsign, hn]

/-- Blanks between the words of a line. -/
structure Gap where
  chars : List Char
  nonempty : chars ≠ []
  blank : ∀ c ∈ chars, isBlank c = true

namespace Literal

/-- Literals one after the other, each behind its gap. -/
def spread : List (Gap × Literal) → List Char
  | [] => []
  | (gap, a) :: args => gap.chars ++ (a.spelled ++ spread args)

/-- The lexemes of literals one after the other. -/
def spreadLexemes : Option TokenKind → List (Gap × Literal) → List Lexeme
  | _, [] => []
  | previous, (_, a) :: args =>
    a.lexemes (.ofSign previous) ++ spreadLexemes (some a.lexeme.kind) args

theorem endsWord_spread (args : List (Gap × Literal)) : EndsWord (spread args) := by
  cases args with
  | nil => simp [spread, EndsWord]
  | cons arg args =>
    obtain ⟨⟨chars, hne, hblank⟩, a⟩ := arg
    obtain ⟨c, cs, rfl⟩ := List.exists_cons_of_ne_nil hne
    exact endsWord_of_isBlank (hblank c (by simp))

theorem lexes_spread (a : Literal) (args : List (Gap × Literal))
    (hblanks : ∀ c ∈ blanks, isBlank c = true) (previous : Option TokenKind) :
    Lexes false previous (blanks ++ (a.spelled ++ spread args))
      (a.lexemes (.ofSign previous) ++ spreadLexemes (some a.lexeme.kind) args) := by
  induction args generalizing a blanks previous with
  | nil => exact a.lexes previous hblanks (endsWord_spread []) nofun (lexes_nil _ _)
  | cons arg args ih =>
    exact a.lexes previous hblanks (endsWord_spread (arg :: args)) nofun
      (ih arg.2 arg.1.blank _)

theorem takeArguments_spread (args : List (Gap × Literal)) (previous : Option TokenKind)
    (globals : Registry Value) (values : List Value) :
    takeArguments globals false values (spreadLexemes previous args) =
      .ok (values ++ args.map fun arg => arg.2.value) := by
  induction args generalizing previous values with
  | nil => simp [spreadLexemes, takeArguments]
  | cons arg args ih =>
    rw [spreadLexemes, takeArguments_literal, ih, List.map_cons, List.append_assoc,
      List.singleton_append]

/-- The literals without the gap before the first. -/
def row : List (Gap × Literal) → List Char
  | [] => []
  | (_, a) :: args => a.spelled ++ spread args

/-- A row of literals is read as the list of their values. -/
theorem argumentsOf_row (args : List (Gap × Literal)) (globals : Registry Value) :
    argumentsOf .standard globals (String.ofList (row args)) =
      .ok (args.map (·.2.value)) := by
  cases args with
  | nil => rfl
  | cons arg args =>
    generalize htext : String.ofList (row (arg :: args)) = text
    have hchars : text.toList = arg.2.spelled ++ spread args := by
      rw [← htext, String.toList_ofList, row]
    obtain ⟨tokens, hemits, htokens⟩ := arg.2.lexes_spread args (List.forall_mem_nil _) none
      ⟨text, none⟩ (.ofCode text false) rfl rfl rfl hchars
    have hfuel : (Lexer.ofCode text false).rest.length < text.length + 1 := by
      rw [← String.length_toList]
      exact Nat.lt_succ_self _
    rw [argumentsOf, readArguments_of_emits hemits rfl hfuel, htokens, takeArguments_literal,
      takeArguments_spread]
    rfl

end Literal

/-! ## In the arguments of a call -/

theorem TokenKind.not_clashes_punctuation (kind : TokenKind) :
    kind.clashes .comma = false ∧ kind.clashes .closing = false := by
  simp [clashes, startsOperand]

theorem endsWord_punctuation {c : Char} (h : c = ',' ∨ c = ')') (cs : List Char) :
    EndsWord (c :: cs) := by
  rcases h with rfl | rfl <;> simp [EndsWord] <;> decide

namespace Literal

/-- Literals with a comma and a space before each. -/
def others (args : List Literal) : List Char := args.flatMap fun a => ',' :: ' ' :: a.spelled

/-- Literals with commas between them. -/
def joined : List Literal → List Char
  | [] => []
  | a :: args => a.spelled ++ others args

/-- A call with literals for its arguments. -/
def callText (name : String) (args : List Literal) : List Char :=
  name.toList ++ '(' :: (joined args ++ [')'])

/-- The arguments behind the first one, and the end of the call. -/
theorem lexes_others (args : List Literal) (previous : Option TokenKind) :
    EndsWord (others args ++ [')']) ∧ Lexes true previous (others args ++ [')'])
      ((args.map (lexemes .unary)).flatMap (⟨.comma, ","⟩ :: ·) ++ [⟨.closing, ")"⟩]) := by
  induction args generalizing previous with
  | nil =>
    refine ⟨endsWord_punctuation (Or.inr rfl) [], ?_⟩
    exact .closed .closing rfl (fun _ kind _ => kind.not_clashes_punctuation.2) (lexes_nil _ _)
  | cons a args ih =>
    obtain ⟨hends, hlexes⟩ := ih (some a.lexeme.kind)
    refine ⟨endsWord_punctuation (Or.inl rfl) _, ?_⟩
    have hblank : ∀ c ∈ [' '], isBlank c = true := List.forall_mem_singleton.mpr (by decide)
    have hliteral := a.lexes (some .comma) hblank hends (fun _ => rfl) hlexes
    have hcomma : Lexes true previous _ _ :=
      .closed .comma rfl (fun _ kind _ => kind.not_clashes_punctuation.1) hliteral
    rw [others, List.flatMap_cons, List.map_cons, List.flatMap_cons, List.append_assoc,
      List.append_assoc]
    exact hcomma

theorem lexes_call {name : String} (hname : IsWord name.toList) (args : List Literal) :
    Lexes true none (callText name args) (headed name (args.map (lexemes .unary))) := by
  have hinner : Lexes true (some .opening) (joined args ++ [')'])
      (TickScript.joined ⟨.comma, ","⟩ (args.map (lexemes .unary)) ++ [⟨.closing, ")"⟩]) := by
    cases args with
    | nil =>
      exact .closed .closing rfl (fun _ kind _ => kind.not_clashes_punctuation.2) (lexes_nil _ _)
    | cons a args =>
      obtain ⟨hends, hlexes⟩ := lexes_others args (some a.lexeme.kind)
      have hliteral := a.lexes (some .opening) (List.forall_mem_nil _) hends (fun _ => rfl) hlexes
      simp only [joined, TickScript.joined, List.map_cons, List.append_assoc]
      exact hliteral
  have hopening : Lexes true (some .call) ('(' :: (joined args ++ [')'])) _ :=
    Lexes.closed .opening rfl (fun _ kind hkind => by cases hkind; rfl) hinner
  have hends : EndsWord ('(' :: (joined args ++ [')'])) := by
    simp only [EndsWord, List.head?_cons, Option.mem_def, Option.some.injEq, forall_eq']
    decide
  exact Lexes.cons (x := ⟨.call, name⟩) (List.forall_mem_nil _)
    (readPiece_of_isWord hname hends _ _) (fun _ _ hkind => by cases hkind) hopening

end Literal

namespace Reader

variable {g : Setting}

theorem single_of_spells {t : Token} (h : t.lexeme.Spells x) :
    single g t = .ok (.leaf (.number x)) := by
  obtain ⟨kind, surface, place⟩ := t
  cases h with
  | decimal _ hx => simp only [single, hx]
  | hexadecimal _ hx => simp only [single, hx]

/-- Between a sign and its numeral no parentheses are needed. -/
theorem readsBack_signed {operator : String} {op : UnaryOperator}
    (hop : g.lang.unary? operator = some op) {n : Lexeme} (hn : n.Spells x) (target : Bool)
    (site : Site) :
    ReadsBack g target (.unary operator (.number x) site) [⟨.unary, operator⟩, n] := by
  intro ts more fuel depth hts hmore hfuel hdepth
  obtain ⟨t, rest, rfl, ht, hrest⟩ := List.map_eq_cons_iff.mp hts
  obtain ⟨u, _, rfl, rfl, hnil⟩ := List.map_eq_cons_iff.mp hrest
  cases List.map_eq_nil_iff.mp hnil
  obtain ⟨hkind, rfl⟩ := Lexeme.mk.inj ht
  have hu : u.kind ≠ .call ∧ u.kind ≠ .opening ∧ u.kind ≠ .unary := by
    obtain ⟨kind, surface, place⟩ := u
    cases hn <;> simp
  simp only [List.length_cons, List.length_nil] at hfuel
  simp only [Expr.height] at hdepth
  obtain ⟨fuel, rfl⟩ : ∃ f, fuel = f + 4 := ⟨fuel - 4, by omega⟩
  have hinner : expression g (fuel + 2) (depth + 1) op.precedence (u :: more) =
      .ok (.leaf (.number x), more) := by
    rw [expression_succ, operand_of_single _ _ (by omega) hu.1 hu.2.1 hu.2.2,
      single_of_spells hn]
    exact climb_of_ends (hmore.mono (Nat.zero_le _)) _ _ _
  refine ⟨⟨.unary t.surface (.number x) (g.site t), 2⟩, ?_, rfl, ?_⟩
  · rw [List.cons_append, List.singleton_append, expression_succ,
      operand_of_unary _ _ (by omega) hkind hop, hinner]
    exact climb_of_ends hmore _ _ _
  · rw [Expr.aimed_of_fixed rfl]
    rfl

theorem readsBack_literal (hg : g.lang = .standard) (a : Literal) :
    ReadsBack g false a.tree (a.lexemes .unary) := by
  cases a with
  | text s h => exact readsBack_text s false
  | numeral isNegative n h =>
    cases isNegative with
    | false => exact readsBack_number h.spells false
    | true =>
      have hop : g.lang.unary? "-" = some ⟨60, Library.minus⟩ := by
        rw [hg]
        rfl
      exact readsBack_signed hop h.spells false .nowhere

end Reader

namespace Literal

theorem forget_tree (a : Literal) : a.tree.forget = a.tree := by
  unfold tree
  split <;> rfl

theorem height_tree (a : Literal) : a.tree.height ≤ 2 := by
  unfold tree
  split <;> simp [Expr.height]

theorem maxHeight_trees (args : List Literal) : Expr.maxHeight (args.map tree) ≤ 2 := by
  induction args with
  | nil => simp [Expr.maxHeight]
  | cons a args ih =>
    have := a.height_tree
    rw [List.map_cons, Expr.maxHeight]
    omega

/-- The meaning of a literal is its value. -/
theorem denote_of_forget (a : Literal) {e : Expr} (h : e.forget = a.tree) (run : Expr → Lazy) :
    e.denote .standard run = Lazy.of a.value := by
  cases a with
  | text s hs =>
    cases e with
    | text s' =>
      cases h
      rfl
    | _ => cases h
  | numeral isNegative n hn =>
    cases isNegative with
    | false =>
      cases e with
      | number x =>
        cases h
        rfl
      | _ => cases h
    | true =>
      cases e with
      | unary operator operand site =>
        obtain ⟨rfl, hoperand, -⟩ := Expr.unary.inj h
        cases operand with
        | number x =>
          cases hoperand
          funext kind s
          rfl
        | _ => cases hoperand
      | _ => cases h

theorem denoteAll_of_forget (args : List Literal) {trees : List Expr}
    (h : trees.map Expr.forget = args.map tree) (run : Expr → Lazy) :
    Expr.denoteAll .standard run trees = (args.map value).map Lazy.of := by
  induction args generalizing trees with
  | nil =>
    rw [List.map_eq_nil_iff.mp h]
    rfl
  | cons a args ih =>
    obtain ⟨e, trees, rfl, he, htrees⟩ := List.map_eq_cons_iff.mp h
    rw [Expr.denoteAll, a.denote_of_forget he, ih htrees, List.map_cons, List.map_cons]

end Literal

/-- A call with literals for its arguments is read, and it means a call with their values. -/
theorem Script.read_call (source : Source) {name : String} (hname : IsWord name.toList)
    (hfree : Language.standard.function? name = none) (args : List Literal)
    (hsource : source.code.toList = Literal.callText name args) :
    ∃ script, Script.read .standard source = .ok script ∧
      ∃ site, ∀ run kind, script.root.denote .standard run kind =
        Run.located site (callNamed run name ((args.map Literal.value).map Lazy.of) kind) := by
  obtain ⟨tokens, hemits, hlexemes⟩ :=
    Literal.lexes_call hname args source (.ofCode source.code true) rfl rfl rfl hsource
  have hne : tokens ≠ [] := by
    rintro rfl
    cases hlexemes
  refine Script.read_of_tokens (P := fun root => ∃ site, ∀ run kind,
    root.denote .standard run kind =
      Run.located site (callNamed run name ((args.map Literal.value).map Lazy.of) kind))
    (tokenize_of_emits hemits) hne fun last => ?_
  have hargs : List.Forall₂ (Reader.ReadsBack ⟨.standard, source, last⟩ false)
      (args.map Literal.tree) (args.map (Literal.lexemes .unary)) := by
    rw [List.forall₂_map_left_iff, List.forall₂_map_right_iff, List.forall₂_same]
    exact fun a _ => Reader.readsBack_literal rfl a
  have hheight : 0 + 2 * (Expr.call name (args.map Literal.tree) .nowhere).height ≤
      maxNesting + 1 := by
    have hmost : maxNesting = 200 := rfl
    have := Literal.maxHeight_trees args
    rw [Expr.height]
    omega
  have hcall : Reader.ReadsBack ⟨.standard, source, last⟩ false
      (.call name (args.map Literal.tree) .nowhere)
      (headed name (args.map (Literal.lexemes .unary))) :=
    Reader.readsBack_call (fun f hf => by cases hfree.symm.trans hf) hargs .nowhere
  obtain ⟨p, hp, hregains⟩ :=
    hcall tokens [] (2 * tokens.length + 2) 0 hlexemes nofun (by omega) hheight
  refine ⟨p, hp, ?_⟩
  have hsame : p.tree.forget = .call name (Expr.forgetAll (args.map Literal.tree)) .nowhere :=
    hregains.same
  cases htree : p.tree with
  | call name' trees site =>
    rw [htree] at hsame
    obtain ⟨rfl, htrees, -⟩ := Expr.call.inj hsame
    have hforget : trees.map Expr.forget = args.map Literal.tree := by
      rw [Expr.forgetAll_eq_map, Expr.forgetAll_eq_map, List.map_map] at htrees
      rw [htrees]
      exact List.map_congr_left fun a _ => a.forget_tree
    refine ⟨site, fun run kind => ?_⟩
    simp only [Expr.denote, Literal.denoteAll_of_forget args hforget, applyCall, hfree]
  | _ =>
    rw [htree] at hsame
    cases hsame

end TickScript

