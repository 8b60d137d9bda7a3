-- Printing a tree: every operand, statement and body stands in parentheses of its own. Which
-- trees the reader can come to is said here too, since only these are printed.
import TickScript.Proofs.Spans
import TickScript.Proofs.Lexemes

namespace TickScript

variable {xs more : List Lexeme} {xss : List (List Lexeme)} {previous : Option TokenKind}

/-! ## Trees up to their sites -/

/-- The site that stands for all sites. -/
def Site.nowhere : Site := ⟨⟨.name, "", .start⟩, ⟨"", none⟩⟩

mutual

/-- The tree without its sites. -/
def Expr.forget : Expr → Expr
  | .number x => .number x
  | .text s => .text s
  | .var name isTarget _ => .var name isTarget .nowhere
  | .unary operator operand _ => .unary operator operand.forget .nowhere
  | .binary operator left right _ => .binary operator left.forget right.forget .nowhere
  | .call name args _ => .call name (Expr.forgetAll args) .nowhere
  | .define name params body _ => .define name params body.forget .nowhere
  | .sequence items => .sequence (Expr.forgetAll items)

/-- Some trees without their sites. -/
def Expr.forgetAll : List Expr → List Expr
  | [] => []
  | e :: rest => e.forget :: Expr.forgetAll rest

end

theorem Expr.forgetAll_eq_map (es : List Expr) : Expr.forgetAll es = es.map Expr.forget := by
  induction es with
  | nil => rfl
  | cons e rest ih => rw [Expr.forgetAll, ih, List.map_cons]

/-! ## Printing -/

/-- The lexeme is a numeral that is read as this number. -/
inductive Lexeme.Spells (x : Float) : Lexeme → Prop
  | decimal {s : String} (h : IsDecimal s.toList) (hx : Number.readUnsigned? s.toList = some x) :
      Spells x ⟨.number, s⟩
  | hexadecimal {s : String} (h : IsHexadecimal s.toList)
      (hx : Number.readHex? (s.toList.drop 2) = some x) : Spells x ⟨.hex, s⟩

def inParens (xs : List Lexeme) : List Lexeme := ⟨.opening, "("⟩ :: (xs ++ [⟨.closing, ")"⟩])

/-- The lists one after the other, with a lexeme between them. -/
def joined (between : Lexeme) : List (List Lexeme) → List Lexeme
  | [] => []
  | xs :: others => xs ++ others.flatMap (between :: ·)

/-- The head of a definition or a call, with what stands in its parentheses. -/
def headed (name : String) (xss : List (List Lexeme)) : List Lexeme :=
  ⟨.call, name⟩ :: inParens (joined ⟨.comma, ","⟩ xss)

mutual

/-- How a tree may be printed. It is up to the printer how a number is spelled. -/
inductive Expr.Prints : Expr → List Lexeme → Prop
  | number {x : Float} {n : Lexeme} (h : n.Spells x) : Prints (.number x) [n]
  | text {s : String} : Prints (.text s) [⟨.text, s⟩]
  | var {name : String} {isTarget : Bool} {site : Site} :
      Prints (.var name isTarget site) [⟨.name, name⟩]
  | unary {operator : String} {operand : Expr} {site : Site} {xs : List Lexeme}
      (h : Prints operand xs) :
      Prints (.unary operator operand site) (⟨.unary, operator⟩ :: inParens xs)
  | binary {operator : String} {left right : Expr} {site : Site} {xs ys : List Lexeme}
      (hleft : Prints left xs) (hright : Prints right ys) :
      Prints (.binary operator left right site)
        (inParens xs ++ ⟨.operator, operator⟩ :: inParens ys)
  | call {name : String} {args : List Expr} {site : Site} {xss : List (List Lexeme)}
      (h : AllPrint args xss) : Prints (.call name args site) (headed name xss)
  | define {name : String} {params : List String} {body : Expr} {site : Site} {xs : List Lexeme}
      (h : Prints body xs) :
      Prints (.define name params body site)
        (headed name (params.map fun param => [⟨.name, param⟩]) ++
          ⟨.operator, "->"⟩ :: inParens xs)
  | sequence {items : List Expr} {xss : List (List Lexeme)} (h : AllPrint items xss) :
      Prints (.sequence items) (joined ⟨.operator, ";"⟩ (xss.map inParens))

/-- How some trees may be printed. -/
inductive Expr.AllPrint : List Expr → List (List Lexeme) → Prop
  | nil : AllPrint [] []
  | cons {e : Expr} {es : List Expr} {xs : List Lexeme} {xss : List (List Lexeme)}
      (h : Prints e xs) (hs : AllPrint es xss) : AllPrint (e :: es) (xs :: xss)

end

mutual

/-- Sites are not printed. -/
theorem Expr.prints_of_forget : ∀ (e : Expr) {xs : List Lexeme}, e.forget.Prints xs → e.Prints xs
  | .number _, _, .number hn => .number hn
  | .text _, _, .text => .text
  | .var .., _, .var => .var
  | .unary _ operand _, _, .unary h => .unary (Expr.prints_of_forget operand h)
  | .binary _ left right _, _, .binary hleft hright =>
    .binary (Expr.prints_of_forget left hleft) (Expr.prints_of_forget right hright)
  | .call _ args _, _, .call h => .call (Expr.allPrint_of_forgetAll args h)
  | .define _ _ body _, _, .define h => .define (Expr.prints_of_forget body h)
  | .sequence items, _, .sequence h => .sequence (Expr.allPrint_of_forgetAll items h)

theorem Expr.allPrint_of_forgetAll : ∀ (es : List Expr) {xss : List (List Lexeme)},
    Expr.AllPrint (Expr.forgetAll es) xss → Expr.AllPrint es xss
  | [], _, .nil => .nil
  | e :: rest, _, .cons h hs =>
    .cons (Expr.prints_of_forget e h) (Expr.allPrint_of_forgetAll rest hs)

end

/-! ## Trees that can be read -/

/-- Whether an operator writes to its left operand, if it makes a node of two operands. -/
def BinaryRole.writes? : BinaryRole → Option Bool
  | .evaluates _ => some false
  | .assigns _ => some true
  | .defines | .sequences => none

def Expr.isSequence : Expr → Bool
  | .sequence _ => true
  | _ => false

/-- A call in a target is one of targets itself if it makes a list. -/
def Language.opensTargets (lang : Language) (target : Bool) (name : String) : Bool :=
  target && (name = listMaker && (lang.function? name).isSome)

mutual

/-- The reader can come to this tree; `target` tells whether it stands where an assignment writes
to. -/
def Expr.Readable (lang : Language) (known : List String) : Bool → Expr → Prop
  | _, .number x => ∃ n : Lexeme, n.Spells x
  | _, .text s => Lexeme.Legal known ⟨.text, s⟩
  | target, .var name isTarget _ => Lexeme.Legal known ⟨.name, name⟩ ∧ isTarget = target
  | _, .unary operator operand _ =>
    Lexeme.Legal known ⟨.unary, operator⟩ ∧ (∃ op, lang.unary? operator = some op) ∧
      operand.Readable lang known false
  | _, .binary operator left right _ =>
    Lexeme.Legal known ⟨.operator, operator⟩ ∧
      (∃ op writes, lang.binary? operator = some op ∧ op.role.writes? = some writes ∧
        left.Readable lang known writes) ∧
      right.Readable lang known false
  | target, .call name args _ =>
    Lexeme.Legal known ⟨.call, name⟩ ∧
      (∀ f, lang.function? name = some f → f.arity.accepts args.length = true) ∧
      Expr.AllReadable lang known (lang.opensTargets target name) args
  | _, .define name params body _ =>
    Lexeme.Legal known ⟨.call, name⟩ ∧ lang.function? name = none ∧
      (∀ param ∈ params, Lexeme.Legal known ⟨.name, param⟩) ∧
      Lexeme.Legal known ⟨.operator, "->"⟩ ∧
      (∃ op, lang.binary? "->" = some op ∧ op.role = .defines) ∧ body.Readable lang known false
  | _, .sequence items =>
    Lexeme.Legal known ⟨.operator, ";"⟩ ∧ lang.binary? ";" = some ⟨1, .left, .sequences⟩ ∧
      2 ≤ items.length ∧ (∀ e ∈ items.head?, e.isSequence = false) ∧
      Expr.AllReadable lang known false items

/-- The reader can come to each of these trees. -/
def Expr.AllReadable (lang : Language) (known : List String) : Bool → List Expr → Prop
  | _, [] => True
  | target, e :: rest =>
    e.Readable lang known target ∧ Expr.AllReadable lang known target rest

end

theorem Expr.allReadable_iff {lang : Language} {known : List String} {target : Bool}
    {es : List Expr} :
    Expr.AllReadable lang known target es ↔ ∀ e ∈ es, e.Readable lang known target := by
  induction es with
  | nil => simp [Expr.AllReadable]
  | cons e rest ih => simp [Expr.AllReadable, ih]

theorem Expr.toTargets_eq_map (lang : Language) (es : List Expr) :
    Expr.toTargets lang es = es.map (Expr.toTarget lang) := by
  induction es with
  | nil => rfl
  | cons e rest ih => rw [Expr.toTargets, ih, List.map_cons]

section

variable (lang : Language) {known : List String}

mutual

/-- What is put to the left of an assignment stands where it writes to. -/
theorem Expr.readable_toTarget : ∀ e : Expr, e.Readable lang known false →
    (e.toTarget lang).Readable lang known true
  | .var .. => by
    rintro ⟨hname, -⟩
    exact ⟨hname, rfl⟩
  | .call name args site => by
    rintro ⟨hname, haccepts, hargs⟩
    unfold Expr.toTarget
    split
    · rename_i hopens
      refine ⟨hname, by simpa [Expr.toTargets_eq_map] using haccepts, ?_⟩
      rw [Language.opensTargets, hopens]
      exact Expr.allReadable_toTargets args hargs
    · rename_i hopens
      refine ⟨hname, haccepts, ?_⟩
      rw [Language.opensTargets, Bool.eq_false_iff.mpr hopens]
      exact hargs
  | .number _ | .text _ | .unary .. | .binary .. | .define .. | .sequence _ => by
    intro h
    simpa only [Expr.toTarget, Expr.Readable] using h

theorem Expr.allReadable_toTargets : ∀ es : List Expr, Expr.AllReadable lang known false es →
    Expr.AllReadable lang known true (Expr.toTargets lang es)
  | [] => fun h => h
  | e :: rest => fun h => ⟨Expr.readable_toTarget e h.1, Expr.allReadable_toTargets rest h.2⟩

end

end

namespace Reader

variable {g : Setting} {known : List String}

theorem readable_of_single {t : Token} {p : Parsed} (ht : t.lexeme.Legal known)
    (h : single g t = .ok p) : p.tree.Readable g.lang known false := by
  obtain ⟨kind, surface, place⟩ := t
  unfold single at h
  dsimp only at h
  cases ht with
  | number hnumeral =>
    dsimp only at h
    split at h
    · rename_i x hx
      cases h
      exact ⟨_, .decimal hnumeral hx⟩
    · cases h
  | hex hnumeral =>
    dsimp only at h
    split at h
    · rename_i x hx
      cases h
      exact ⟨_, .hexadecimal hnumeral hx⟩
    · cases h
  | text hquote =>
    cases h
    exact .text hquote
  | name hword =>
    cases h
    exact ⟨.name hword, rfl⟩
  | call | operator | unary | opening | closing | comma => cases h

theorem readable_of_paramNames? {args : List Expr} {params : List String}
    (hargs : Expr.AllReadable g.lang known false args) (h : paramNames? args = some params) :
    ∀ param ∈ params, Lexeme.Legal known ⟨.name, param⟩ := by
  induction args generalizing params with
  | nil =>
    cases h
    simp
  | cons e rest ih =>
    unfold paramNames? at h
    split at h
    · rename_i heq
      cases heq
    · rename_i name isTarget site others heq
      cases heq
      obtain ⟨names, hnames, rfl⟩ := Option.map_eq_some_iff.mp h
      exact List.forall_mem_cons.mpr ⟨hargs.1.1, ih hargs.2 hnames⟩
    · cases h

theorem readable_andThen {first next : Parsed} (hlegal : Lexeme.Legal known ⟨.operator, ";"⟩)
    (hop : g.lang.binary? ";" = some ⟨1, .left, .sequences⟩)
    (hfirst : first.tree.Readable g.lang known false)
    (hnext : next.tree.Readable g.lang known false) :
    (first.andThen next).tree.Readable g.lang known false := by
  unfold Parsed.andThen
  split
  · rename_i items htree
    rw [htree] at hfirst
    obtain ⟨_, _, hlength, hhead, hitems⟩ := hfirst
    refine ⟨hlegal, hop, by rw [List.length_append]; omega, ?_, ?_⟩
    · obtain ⟨e, rest, rfl⟩ := List.exists_cons_of_length_pos (show 0 < items.length by omega)
      exact hhead
    · rw [Expr.allReadable_iff] at hitems ⊢
      intro e he
      rcases List.mem_append.mp he with he | he
      · exact hitems e he
      · rwa [List.mem_singleton.mp he]
  · rename_i hsequence
    refine ⟨hlegal, hop, Nat.le_refl 2, ?_, hfirst, hnext, trivial⟩
    intro e he
    cases Option.some.inj he
    unfold Expr.isSequence
    split
    · rename_i items htree
      exact absurd htree (hsequence items)
    · rfl

theorem readable_joins (hregular : g.lang.Regular) {t : Token} {op : BinaryOperator}
    {left right p : Parsed} (ht : Lexeme.Legal known ⟨.operator, t.surface⟩)
    (hop : g.lang.binary? t.surface = some op) (hl : left.tree.Readable g.lang known false)
    (hr : right.tree.Readable g.lang known false) (h : Joins g t left right op.role p) :
    p.tree.Readable g.lang known false := by
  generalize hrole : op.role = role at h
  cases h with
  | sequences =>
    obtain ⟨hs, rfl⟩ := hregular.sequences hop hrole
    rw [hs] at ht hop
    exact readable_andThen ht hop hl hr
  | evaluates apply => exact ⟨ht, ⟨op, false, hop, by rw [hrole]; rfl, hl⟩, hr⟩
  | assigns apply =>
    exact ⟨ht, ⟨op, true, hop, by rw [hrole]; rfl, Expr.readable_toTarget g.lang _ hl⟩, hr⟩
  | defines hhead hfunction hparams =>
    have hs := hregular.defines hop hrole
    rw [hs] at ht hop
    rw [hhead] at hl
    exact ⟨hl.1, hfunction, readable_of_paramNames? hl.2.2 hparams, ht, ⟨op, hop, hrole⟩, hr⟩

/-- What the reader comes to is a tree that it can come to. -/
theorem Spans.readable (hregular : g.lang.Regular) {depth : Nat} {taken : List Token} {p : Parsed}
    (h : Spans g depth taken p) (hlegal : ∀ t ∈ taken, t.lexeme.Legal known) :
    p.tree.Readable g.lang known false := by
  induction h with
  | single _ h => exact readable_of_single (hlegal _ (by simp)) h
  | parentheses _ _ _ _ ih => exact ih fun t ht => hlegal t (by simp [ht])
  | @unary _ t op _ _ _ hkind hop _ ih =>
    have hlexeme : t.lexeme = ⟨.unary, t.surface⟩ := by rw [Token.lexeme, hkind]
    exact ⟨hlexeme ▸ hlegal t (by simp), ⟨op, hop⟩, ih fun t ht => hlegal t (by simp [ht])⟩
  | @call _ t _ _ args inside _ hkind _ hinside _ haccepts ih =>
    have hlexeme : t.lexeme = ⟨.call, t.surface⟩ := by rw [Token.lexeme, hkind]
    refine ⟨hlexeme ▸ hlegal t (by simp), by simpa using haccepts,
      Expr.allReadable_iff.mpr fun e he => ?_⟩
    obtain ⟨arg, harg, rfl⟩ := List.mem_map.mp he
    obtain ⟨start, rest, rfl⟩ := hinside.within (List.mem_map_of_mem harg)
    exact ih arg harg fun t ht => hlegal t (by simp [ht])
  | @join _ _ _ t _ _ _ _ _ hkind hop _ _ h ihl ihr =>
    have hlexeme : t.lexeme = ⟨.operator, t.surface⟩ := by rw [Token.lexeme, hkind]
    exact readable_joins hregular (hlexeme ▸ hlegal t (by simp)) hop
      (ihl fun t ht => hlegal t (by simp [ht])) (ihr fun t ht => hlegal t (by simp [ht])) h
  | trailing _ _ _ _ ih => exact ih fun t ht => hlegal t (by simp [ht])

end Reader

/-! ## Printed trees -/

variable {lang : Language} {known : List String}

mutual

/-- Every tree that can be read can be printed. -/
theorem Expr.exists_prints : ∀ (e : Expr) {target : Bool}, e.Readable lang known target →
    ∃ xs, e.Prints xs
  | .number _, _, ⟨_, hn⟩ => ⟨_, .number hn⟩
  | .text _, _, _ => ⟨_, .text⟩
  | .var .., _, _ => ⟨_, .var⟩
  | .unary _ operand _, _, h => by
    obtain ⟨_, hxs⟩ := Expr.exists_prints operand h.2.2
    exact ⟨_, .unary hxs⟩
  | .binary _ left right _, _, ⟨_, ⟨_, _, _, _, hleft⟩, hright⟩ => by
    obtain ⟨_, hxs⟩ := Expr.exists_prints left hleft
    obtain ⟨_, hys⟩ := Expr.exists_prints right hright
    exact ⟨_, .binary hxs hys⟩
  | .call _ args _, _, h => by
    obtain ⟨_, hxss⟩ := Expr.exists_allPrint args h.2.2
    exact ⟨_, .call hxss⟩
  | .define _ _ body _, _, ⟨_, _, _, _, _, hbody⟩ => by
    obtain ⟨_, hxs⟩ := Expr.exists_prints body hbody
    exact ⟨_, .define hxs⟩
  | .sequence items, _, ⟨_, _, _, _, hitems⟩ => by
    obtain ⟨_, hxss⟩ := Expr.exists_allPrint items hitems
    exact ⟨_, .sequence hxss⟩

theorem Expr.exists_allPrint : ∀ (es : List Expr) {target : Bool},
    Expr.AllReadable lang known target es → ∃ xss, Expr.AllPrint es xss
  | [], _, _ => ⟨_, .nil⟩
  | e :: rest, _, h => by
    obtain ⟨_, hxs⟩ := Expr.exists_prints e h.1
    obtain ⟨_, hxss⟩ := Expr.exists_allPrint rest h.2
    exact ⟨_, .cons hxs hxss⟩

end

theorem Lexeme.Spells.legal {x : Float} {n : Lexeme} (h : n.Spells x) : n.Legal known := by
  cases h with
  | decimal h => exact .number h
  | hexadecimal h => exact .hex h

theorem legal_inParens (h : ∀ x ∈ xs, x.Legal known) : ∀ x ∈ inParens xs, x.Legal known := by
  intro x hx
  simp only [inParens, List.mem_cons, List.mem_append, List.not_mem_nil, or_false] at hx
  rcases hx with rfl | hx | rfl
  · exact .opening
  · exact h x hx
  · exact .closing

theorem legal_joined {between : Lexeme} (hbetween : between.Legal known)
    (h : ∀ xs ∈ xss, ∀ x ∈ xs, x.Legal known) : ∀ x ∈ joined between xss, x.Legal known := by
  intro x hx
  cases xss with
  | nil => cases hx
  | cons xs others =>
    obtain ⟨hxs, hothers⟩ := List.forall_mem_cons.mp h
    rcases List.mem_append.mp hx with hx | hx
    · exact hxs x hx
    · obtain ⟨ys, hys, hx⟩ := List.mem_flatMap.mp hx
      rcases List.mem_cons.mp hx with rfl | hx
      · exact hbetween
      · exact hothers ys hys x hx

theorem legal_headed {name : String} (hname : Lexeme.Legal known ⟨.call, name⟩)
    (h : ∀ xs ∈ xss, ∀ x ∈ xs, x.Legal known) : ∀ x ∈ headed name xss, x.Legal known :=
  List.forall_mem_cons.mpr ⟨hname, legal_inParens (legal_joined .comma h)⟩

mutual

/-- What is printed consists of legal lexemes. -/
theorem Expr.legal_of_prints : ∀ (e : Expr) {target : Bool} {xs : List Lexeme},
    e.Readable lang known target → e.Prints xs → ∀ x ∈ xs, x.Legal known
  | .number _, _, _, _, .number hn => by
    rintro x (_ | ⟨_, ⟨⟩⟩)
    exact hn.legal
  | .text _, _, _, h, .text => by
    rintro x (_ | ⟨_, ⟨⟩⟩)
    exact h
  | .var .., _, _, h, .var => by
    rintro x (_ | ⟨_, ⟨⟩⟩)
    exact h.1
  | .unary _ operand _, _, _, h, .unary hxs =>
    List.forall_mem_cons.mpr ⟨h.1, legal_inParens (Expr.legal_of_prints operand h.2.2 hxs)⟩
  | .binary _ left right _, _, _, ⟨hop, ⟨_, _, _, _, hleft⟩, hright⟩, .binary hxs hys => by
    rw [List.forall_mem_append, List.forall_mem_cons]
    exact ⟨legal_inParens (Expr.legal_of_prints left hleft hxs), hop,
      legal_inParens (Expr.legal_of_prints right hright hys)⟩
  | .call _ args _, _, _, h, .call hxss =>
    legal_headed h.1 (Expr.legal_of_allPrint args h.2.2 hxss)
  | .define _ params body _, _, _, ⟨hname, _, hparams, harrow, _, hbody⟩, .define hxs => by
    rw [List.forall_mem_append, List.forall_mem_cons]
    refine ⟨legal_headed hname ?_, harrow, legal_inParens (Expr.legal_of_prints body hbody hxs)⟩
    intro ys hys
    obtain ⟨param, hparam, rfl⟩ := List.mem_map.mp hys
    rintro x (_ | ⟨_, ⟨⟩⟩)
    exact hparams param hparam
  | .sequence items, _, _, ⟨hlegal, _, _, _, hitems⟩, .sequence hxss => by
    refine legal_joined hlegal fun xs hxs => ?_
    obtain ⟨ys, hys, rfl⟩ := List.mem_map.mp hxs
    exact legal_inParens (Expr.legal_of_allPrint items hitems hxss ys hys)

theorem Expr.legal_of_allPrint : ∀ (es : List Expr) {target : Bool} {xss : List (List Lexeme)},
    Expr.AllReadable lang known target es → Expr.AllPrint es xss →
    ∀ xs ∈ xss, ∀ x ∈ xs, x.Legal known
  | [], _, _, _, .nil => by simp
  | e :: rest, _, _, h, .cons hxs hxss =>
    List.forall_mem_cons.mpr
      ⟨Expr.legal_of_prints e h.1 hxs, Expr.legal_of_allPrint rest h.2 hxss⟩

end

/-! ## Printed lexemes in order -/

/-- An operand may stand behind a token of this kind, or at the very start. -/
def TokenKind.wantsOperand : Option TokenKind → Bool
  | none | some .opening | some .comma => true
  | _ => false

theorem TokenKind.precedes_of_wantsOperand {next : TokenKind} (h : wantsOperand previous = true)
    (hnext : next.startsOperand = true ∨ next = .unary) : precedes previous (some next) = true := by
  have hnext : next ≠ .operator ∧ next ≠ .comma ∧ next ≠ .closing := by
    rcases hnext with hnext | rfl
    · refine ⟨?_, ?_, ?_⟩ <;> rintro rfl <;> cases hnext
    · decide
  unfold wantsOperand at h
  split at h <;> simp_all [precedes]

/-- A tree may end before these lexemes. -/
def EndsTree (more : List Lexeme) : Prop :=
  ∀ kind : TokenKind, kind.endsOperand = true → kind ≠ .call → Coherent (some kind) more

/-- The lexemes may stand where an operand is wanted, up to where a tree may end. -/
def Whole (xs : List Lexeme) : Prop :=
  ∀ previous more, TokenKind.wantsOperand previous = true → EndsTree more →
    Coherent previous (xs ++ more)

theorem endsTree_nil : EndsTree [] := by
  intro kind hkind hcall
  cases kind with
  | name | number | hex | text | closing => rfl
  | call => exact absurd rfl hcall
  | operator | unary | opening | comma => cases hkind

theorem EndsTree.cons {x : Lexeme} (hx : x.kind = .closing ∨ x.kind = .comma)
    (h : Coherent (some x.kind) more) : EndsTree (x :: more) := by
  intro kind hkind hcall
  refine ⟨?_, h⟩
  cases kind with
  | name | number | hex | text | closing => rcases hx with hx | hx <;> rw [hx] <;> rfl
  | call => exact absurd rfl hcall
  | operator | unary | opening | comma => cases hkind

theorem Whole.coherent (h : Whole xs) : Coherent none xs := by
  have := h none [] rfl endsTree_nil
  rwa [List.append_nil] at this

theorem whole_single {x : Lexeme} (hstarts : x.kind.startsOperand = true)
    (hends : x.kind.endsOperand = true) (hcall : x.kind ≠ .call) : Whole [x] :=
  fun _ _ hprevious hmore =>
    ⟨TokenKind.precedes_of_wantsOperand hprevious (Or.inl hstarts), hmore x.kind hends hcall⟩

theorem Lexeme.Spells.whole {x : Float} {n : Lexeme} (h : n.Spells x) : Whole [n] := by
  cases h with
  | decimal => exact whole_single rfl rfl nofun
  | hexadecimal => exact whole_single rfl rfl nofun

theorem Whole.inParens (h : Whole xs)
    (hprevious : TokenKind.precedes previous (some .opening) = true)
    (hmore : Coherent (some .closing) more) : Coherent previous (inParens xs ++ more) := by
  have hsplit : TickScript.inParens xs ++ more =
      ⟨.opening, "("⟩ :: (xs ++ ⟨.closing, ")"⟩ :: more) := by
    simp [TickScript.inParens]
  rw [hsplit]
  exact ⟨hprevious, h _ _ rfl (.cons (Or.inl rfl) hmore)⟩

theorem whole_joined {others : List (List Lexeme)} (hxs : Whole xs)
    (hothers : ∀ ys ∈ others, Whole ys) : Whole (joined ⟨.comma, ","⟩ (xs :: others)) := by
  induction others generalizing xs with
  | nil => simpa [joined] using hxs
  | cons ys others ih =>
    obtain ⟨hys, hothers⟩ := List.forall_mem_cons.mp hothers
    intro previous more hprevious hmore
    have hrest : Coherent (some .comma) (joined ⟨.comma, ","⟩ (ys :: others) ++ more) :=
      ih hys hothers _ _ rfl hmore
    have hsplit : joined ⟨.comma, ","⟩ (xs :: ys :: others) ++ more =
        xs ++ ⟨.comma, ","⟩ :: (joined ⟨.comma, ","⟩ (ys :: others) ++ more) := by
      simp [joined]
    rw [hsplit]
    exact hxs _ _ hprevious (.cons (Or.inr rfl) hrest)

theorem coherent_headed {name : String} (h : ∀ xs ∈ xss, Whole xs)
    (hprevious : TokenKind.wantsOperand previous = true) (hmore : Coherent (some .closing) more) :
    Coherent previous (headed name xss ++ more) := by
  refine ⟨TokenKind.precedes_of_wantsOperand hprevious (Or.inl rfl), ?_⟩
  cases xss with
  | nil => exact ⟨rfl, rfl, hmore⟩
  | cons xs others =>
    obtain ⟨hxs, hothers⟩ := List.forall_mem_cons.mp h
    exact (whole_joined hxs hothers).inParens rfl hmore

theorem coherent_statements (h : ∀ xs ∈ xss, Whole xs) (hmore : Coherent (some .closing) more) :
    Coherent (some .closing) ((xss.map inParens).flatMap (⟨.operator, ";"⟩ :: ·) ++ more) := by
  induction xss with
  | nil => exact hmore
  | cons xs others ih =>
    obtain ⟨hxs, hothers⟩ := List.forall_mem_cons.mp h
    rw [List.map_cons, List.flatMap_cons, List.append_assoc]
    exact ⟨rfl, hxs.inParens rfl (ih hothers)⟩

mutual

/-- A printed tree may stand where an operand is wanted. -/
theorem Expr.whole_of_prints : ∀ (e : Expr) {target : Bool} {xs : List Lexeme},
    e.Readable lang known target → e.Prints xs → Whole xs
  | .number _, _, _, _, .number hn => hn.whole
  | .text _, _, _, _, .text => whole_single rfl rfl nofun
  | .var .., _, _, _, .var => whole_single rfl rfl nofun
  | .unary _ operand _, _, _, h, .unary hxs => fun _ _ hprevious hmore =>
    ⟨TokenKind.precedes_of_wantsOperand hprevious (Or.inr rfl),
      (Expr.whole_of_prints operand h.2.2 hxs).inParens rfl (hmore .closing rfl (by decide))⟩
  | .binary _ left right _, _, _, ⟨_, ⟨_, _, _, _, hleft⟩, hright⟩, .binary hxs hys => by
    intro previous more hprevious hmore
    rw [List.append_assoc]
    refine (Expr.whole_of_prints left hleft hxs).inParens
      (TokenKind.precedes_of_wantsOperand hprevious (Or.inl rfl)) ⟨rfl, ?_⟩
    exact (Expr.whole_of_prints right hright hys).inParens rfl (hmore .closing rfl (by decide))
  | .call _ args _, _, _, h, .call hxss => fun _ _ hprevious hmore =>
    coherent_headed (Expr.whole_of_allPrint args h.2.2 hxss) hprevious
      (hmore .closing rfl (by decide))
  | .define _ params body _, _, _, ⟨_, _, _, _, _, hbody⟩, .define hxs => by
    intro previous more hprevious hmore
    rw [List.append_assoc]
    refine coherent_headed ?_ hprevious ⟨rfl, ?_⟩
    · intro ys hys
      obtain ⟨param, _, rfl⟩ := List.mem_map.mp hys
      exact whole_single rfl rfl nofun
    · exact (Expr.whole_of_prints body hbody hxs).inParens rfl (hmore .closing rfl (by decide))
  | .sequence items, _, _, ⟨_, _, hlength, _, hitems⟩, .sequence hxss => by
    have hwhole := Expr.whole_of_allPrint items hitems hxss
    intro previous more hprevious hmore
    cases hxss with
    | nil => cases hlength
    | @cons e es xs xss hxs hxss =>
      obtain ⟨hfirst, hothers⟩ := List.forall_mem_cons.mp hwhole
      rw [List.map_cons, joined, List.append_assoc]
      exact hfirst.inParens (TokenKind.precedes_of_wantsOperand hprevious (Or.inl rfl))
        (coherent_statements hothers (hmore .closing rfl (by decide)))

theorem Expr.whole_of_allPrint : ∀ (es : List Expr) {target : Bool} {xss : List (List Lexeme)},
    Expr.AllReadable lang known target es → Expr.AllPrint es xss → ∀ xs ∈ xss, Whole xs
  | [], _, _, _, .nil => by simp
  | e :: rest, _, _, h, .cons hxs hxss =>
    List.forall_mem_cons.mpr
      ⟨Expr.whole_of_prints e h.1 hxs, Expr.whole_of_allPrint rest h.2 hxss⟩

end

theorem Expr.coherent_of_prints {e : Expr} {target : Bool} (h : e.Readable lang known target)
    (hxs : e.Prints xs) : Coherent none xs :=
  (e.whole_of_prints h hxs).coherent

end TickScript
