-- Trees that differ only in their sites. What a reader makes of tokens depends on their kinds and
-- surfaces: of the same ones in other places it makes such a tree, or it refuses both alike.
import Mathlib.Data.List.Forall2
import TickScript.Proofs.Lexemes
import TickScript.Proofs.Reading

namespace TickScript

variable {Near Blame : Site → Site → Prop}

/-! ## Trees and faults -/

/-- The trees are the same but for their sites, of which each is near to the other one's. -/
inductive Expr.Alike (Near : Site → Site → Prop) : Expr → Expr → Prop
  | number (x : Float) : Alike Near (.number x) (.number x)
  | text (s : String) : Alike Near (.text s) (.text s)
  | var (name : String) (isTarget : Bool) {s t : Site} (hsite : Near s t) :
      Alike Near (.var name isTarget s) (.var name isTarget t)
  | unary (operator : String) {e f : Expr} {s t : Site} (h : Alike Near e f) (hsite : Near s t) :
      Alike Near (.unary operator e s) (.unary operator f t)
  | binary (operator : String) {e f e' f' : Expr} {s t : Site} (hleft : Alike Near e f)
      (hright : Alike Near e' f') (hsite : Near s t) :
      Alike Near (.binary operator e e' s) (.binary operator f f' t)
  | call (name : String) {args others : List Expr} {s t : Site}
      (hargs : List.Forall₂ (Alike Near) args others) (hsite : Near s t) :
      Alike Near (.call name args s) (.call name others t)
  | define (name : String) (params : List String) {e f : Expr} {s t : Site} (h : Alike Near e f)
      (hsite : Near s t) : Alike Near (.define name params e s) (.define name params f t)
  | sequence {items others : List Expr} (h : List.Forall₂ (Alike Near) items others) :
      Alike Near (.sequence items) (.sequence others)

/-- The faults are the same but for their sites. -/
structure Fault.Alike (Near : Site → Site → Prop) (f g : Fault) : Prop where
  cause : g.cause = f.cause
  procedure : g.procedure = f.procedure
  site : Option.Rel Near f.site g.site

/-- Two readings fail alike, or both succeed. -/
inductive AlikeRead (Near : Site → Site → Prop) {α β : Type} (Both : α → β → Prop) :
    Except Fault α → Except Fault β → Prop
  | ok {a : α} {b : β} (h : Both a b) : AlikeRead Near Both (.ok a) (.ok b)
  | error {f g : Fault} (h : f.Alike Near g) : AlikeRead Near Both (.error f) (.error g)

theorem AlikeRead.bind {α β γ δ : Type} {Both : α → β → Prop} {Next : γ → δ → Prop}
    {x : Except Fault α} {y : Except Fault β} {f : α → Except Fault γ} {g : β → Except Fault δ}
    (h : AlikeRead Near Both x y) (hnext : ∀ a b, Both a b → AlikeRead Near Next (f a) (g b)) :
    AlikeRead Near Next (x >>= f) (y >>= g) := by
  cases h with
  | ok h => exact hnext _ _ h
  | error h => exact .error h

namespace Reader

/-- A tree that the token is read into tells where it stands. -/
def Marks (lang : Language) (t : Token) : Prop :=
  t.kind = .name ∨ t.kind = .call ∨ t.kind = .unary ∧ (∃ op, lang.unary? t.surface = some op) ∨
    t.kind = .operator ∧ ∃ op, lang.binary? t.surface = some op ∧ op.role ≠ .sequences

/-- Two readers that are told the same, of tokens that are the same in some sense: those that a
tree tells of are near to each other, and the faults are blamed on tokens that go together. -/
structure Setting.Alike (Near Blame : Site → Site → Prop) (Same : Token → Token → Prop)
    (g h : Setting) : Prop where
  lang : h.lang = g.lang
  lexeme : ∀ {t u}, Same t u → u.lexeme = t.lexeme
  near : ∀ {t u}, Same t u → Marks g.lang t → Near (g.site t) (h.site u)
  blame : ∀ {t u}, Same t u → Blame (g.site t) (h.site u)
  blamed : ∀ {s t}, Near s t → Blame s t
  last : Blame (g.site g.last) (h.site h.last)

/-- What has been read is alike, and so are the tokens that are left. -/
structure ParsedAlike (Near : Site → Site → Prop) (p q : Parsed) : Prop where
  tree : p.tree.Alike Near q.tree
  height : q.height = p.height

structure LeftAlike (Near : Site → Site → Prop) (Same : Token → Token → Prop)
    (x y : Parsed × List Token) : Prop where
  parsed : ParsedAlike Near x.1 y.1
  rest : List.Forall₂ Same x.2 y.2

theorem ParsedAlike.andThen {p q p' q' : Parsed} (h : ParsedAlike Near p q)
    (h' : ParsedAlike Near p' q') : ParsedAlike Near (p.andThen p') (q.andThen q') := by
  obtain ⟨tree, height⟩ := p
  obtain ⟨other, height'⟩ := q
  obtain ⟨htree, rfl⟩ := h
  unfold Parsed.andThen
  cases htree with
  | sequence hitems =>
    exact ⟨.sequence (List.rel_append hitems (.cons h'.tree .nil)), by simp [h'.height]⟩
  | number | text | var | unary | binary | call | define =>
    refine ⟨.sequence (.cons ?_ (.cons h'.tree .nil)), by simp [h'.height]⟩
    constructor <;> assumption

section Targets

variable (lang : Language)

mutual

theorem alike_toTarget : ∀ {e f : Expr}, e.Alike Near f →
    (e.toTarget lang).Alike Near (f.toTarget lang)
  | .var .., _, .var name _ hsite => .var name true hsite
  | .call .., _, .call name hargs hsite => by
    unfold Expr.toTarget
    split
    · exact .call name (alike_toTargets hargs) hsite
    · exact .call name hargs hsite
  | .number _, _, .number x => .number x
  | .text _, _, .text s => .text s
  | .unary .., _, .unary operator h hsite => .unary operator h hsite
  | .binary .., _, .binary operator hl hr hsite => .binary operator hl hr hsite
  | .define .., _, .define name params h hsite => .define name params h hsite
  | .sequence _, _, .sequence h => .sequence h

theorem alike_toTargets : ∀ {es fs : List Expr}, List.Forall₂ (Expr.Alike Near) es fs →
    List.Forall₂ (Expr.Alike Near) (Expr.toTargets lang es) (Expr.toTargets lang fs)
  | [], _, .nil => .nil
  | _ :: _, _, .cons h hs => .cons (alike_toTarget h) (alike_toTargets hs)

end

end Targets

theorem paramNames?_of_alike {es fs : List Expr} (h : List.Forall₂ (Expr.Alike Near) es fs) :
    paramNames? fs = paramNames? es := by
  induction h with
  | nil => rfl
  | cons h _ ih =>
    cases h with
    | var name isTarget => simp only [paramNames?, ih]
    | number | text | unary | binary | call | define | sequence => rfl

/-! ## Steps of the reader -/

section Steps

variable {Same : Token → Token → Prop} {g h : Setting} {t u : Token}

theorem alike_refuse {α β : Type} {Both : α → β → Prop} (cause : Cause)
    (htu : Blame (g.site t) (h.site u)) :
    AlikeRead Blame Both (g.refuse cause t) (h.refuse cause u) :=
  .error ⟨rfl, rfl, .some htu⟩

variable (hgh : Setting.Alike Near Blame Same g h)

include hgh

theorem Setting.Alike.surface (htu : Same t u) : u.surface = t.surface :=
  congrArg Lexeme.surface (hgh.lexeme htu)

theorem Setting.Alike.kind (htu : Same t u) : u.kind = t.kind :=
  congrArg Lexeme.kind (hgh.lexeme htu)

theorem alike_definition {head body head' body' : Expr} (hhead : head.Alike Near head')
    (hbody : body.Alike Near body') (htu : Same t u) :
    AlikeRead Blame (Expr.Alike Near) (definition g head body t) (definition h head' body' u) := by
  cases hhead with
  | @call name args others s s' hargs hsite =>
    simp only [definition, hgh.lang, paramNames?_of_alike hargs]
    split
    · exact .error ⟨rfl, rfl, .some (hgh.blamed hsite)⟩
    · split
      · exact .ok (.define name _ hbody hsite)
      · exact .error ⟨rfl, rfl, .some (hgh.blamed hsite)⟩
  | number | text | var | unary | binary | define | sequence =>
    exact alike_refuse .badSignature (hgh.blame htu)

theorem alike_combine {op : BinaryOperator} (htu : Same t u) (ht : t.kind = .operator)
    (hop : g.lang.binary? t.surface = some op) {left right left' right' : Parsed}
    (hleft : ParsedAlike Near left left') (hright : ParsedAlike Near right right') :
    AlikeRead Blame (ParsedAlike Near) (combine g op t left right)
      (combine h op u left' right') := by
  have hnear (hrole : op.role ≠ .sequences) : Near (g.site t) (h.site u) :=
    hgh.near htu (Or.inr (Or.inr (Or.inr ⟨ht, op, hop, hrole⟩)))
  unfold combine
  simp only [hleft.height, hright.height, hgh.surface htu, hgh.lang]
  split
  · exact alike_refuse .nestedTooDeep (hgh.blame htu)
  split
  · exact .ok (hleft.andThen hright)
  · rename_i hrole
    exact .ok ⟨.binary _ hleft.tree hright.tree (hnear (by simp [hrole])), rfl⟩
  · rename_i hrole
    exact .ok ⟨.binary _ (alike_toTarget g.lang hleft.tree) hright.tree
      (hnear (by simp [hrole])), rfl⟩
  · exact (alike_definition hgh hleft.tree hright.tree htu).bind fun _ _ htree =>
      .ok ⟨htree, rfl⟩

theorem alike_finishCall (htu : Same t u) (ht : t.kind = .call) {args others : List Expr}
    (hargs : List.Forall₂ (Expr.Alike Near) args others) (height : Nat) :
    AlikeRead Blame (ParsedAlike Near) (finishCall g t args height)
      (finishCall h u others height) := by
  have hnear : Near (g.site t) (h.site u) := hgh.near htu (Or.inr (Or.inl ht))
  unfold finishCall
  simp only [hgh.surface htu, hgh.lang, ← hargs.length_eq]
  split
  · split
    · exact .ok ⟨.call _ hargs hnear, rfl⟩
    · exact alike_refuse _ (hgh.blame htu)
  · exact .ok ⟨.call _ hargs hnear, rfl⟩

theorem alike_single (htu : Same t u) :
    AlikeRead Blame (ParsedAlike Near) (single g t) (single h u) := by
  unfold single
  simp only [hgh.surface htu, hgh.kind htu]
  split
  · split
    · exact .ok ⟨.number _, rfl⟩
    · exact alike_refuse _ (hgh.blame htu)
  · split
    · exact .ok ⟨.number _, rfl⟩
    · exact alike_refuse _ (hgh.blame htu)
  · exact .ok ⟨.text _, rfl⟩
  · rename_i ht
    exact .ok ⟨.var _ _ (hgh.near htu (Or.inl ht)), rfl⟩
  · exact alike_refuse _ (hgh.blame htu)

theorem trailing_of_alike (op : BinaryOperator) {rest others : List Token}
    (hrest : List.Forall₂ Same rest others) : trailing op others = trailing op rest := by
  unfold trailing
  cases hrest with
  | nil => rfl
  | cons htu _ => simp only [atOperandEnd, hgh.kind htu]

end Steps

/-! ## Readings -/

/-- With this fuel both readers read alike. -/
structure ReadsAlike (Near Blame : Site → Site → Prop) (Same : Token → Token → Prop)
    (g h : Setting) (fuel : Nat) : Prop where
  expression : ∀ {depth least tokens others}, List.Forall₂ Same tokens others →
    AlikeRead Blame (LeftAlike Near Same) (Reader.expression g fuel depth least tokens)
      (Reader.expression h fuel depth least others)
  climb : ∀ {depth least left left' tokens others}, ParsedAlike Near left left' →
    List.Forall₂ Same tokens others →
    AlikeRead Blame (LeftAlike Near Same) (Reader.climb g fuel depth least left tokens)
      (Reader.climb h fuel depth least left' others)
  operand : ∀ {depth tokens others}, List.Forall₂ Same tokens others →
    AlikeRead Blame (LeftAlike Near Same) (Reader.operand g fuel depth tokens)
      (Reader.operand h fuel depth others)
  arguments : ∀ {depth t u args args' height tokens others}, Same t u → t.kind = .call →
    List.Forall₂ (Expr.Alike Near) args args' → List.Forall₂ Same tokens others →
    AlikeRead Blame (LeftAlike Near Same) (Reader.arguments g fuel depth t args height tokens)
      (Reader.arguments h fuel depth u args' height others)

namespace ReadsAlike

variable {Same : Token → Token → Prop} {g h : Setting} (hgh : Setting.Alike Near Blame Same g h)
  {fuel : Nat} (ih : ReadsAlike Near Blame Same g h fuel) {tokens others : List Token}
  (htokens : List.Forall₂ Same tokens others)

include hgh ih htokens

theorem climb_step (depth least : Nat) {left left' : Parsed} (hleft : ParsedAlike Near left left') :
    AlikeRead Blame (LeftAlike Near Same) (Reader.climb g (fuel + 1) depth least left tokens)
      (Reader.climb h (fuel + 1) depth least left' others) := by
  cases htokens with
  | nil =>
    rw [Reader.climb, Reader.climb]
    · exact .ok ⟨hleft, .nil⟩
    all_goals simp
  | @cons t u rest rest' htu hrest =>
    have hkind := hgh.kind htu
    have hsurface := hgh.surface htu
    by_cases ht : t.kind = .operator
    case neg =>
      rw [climb_of_not_operator fuel depth ht, climb_of_not_operator fuel depth (hkind ▸ ht)]
      exact .ok ⟨hleft, .cons htu hrest⟩
    have hu : u.kind = .operator := hkind.trans ht
    have hbinary : h.lang.binary? u.surface = g.lang.binary? t.surface := by
      rw [hgh.lang, hsurface]
    rcases hop : g.lang.binary? t.surface with _ | op
    · rw [climb_of_unknown fuel depth ht hop, climb_of_unknown fuel depth hu (hbinary.trans hop),
        hsurface]
      exact alike_refuse _ (hgh.blame htu)
    have hop' := hbinary.trans hop
    by_cases hleast : op.precedence < least
    · rw [climb_of_looser fuel depth ht hop hleast, climb_of_looser fuel depth hu hop' hleast]
      exact .ok ⟨hleft, .cons htu hrest⟩
    have htrailing := trailing_of_alike hgh op hrest
    cases hend : trailing op rest with
    | true =>
      rw [climb_of_trailing fuel depth ht hop hleast hend,
        climb_of_trailing fuel depth hu hop' hleast (htrailing.trans hend)]
      exact .ok ⟨hleft, hrest⟩
    | false =>
      rw [climb_of_operator fuel depth ht hop hleast hend,
        climb_of_operator fuel depth hu hop' hleast (htrailing.trans hend)]
      refine (ih.expression hrest).bind fun x y hxy => ?_
      exact (alike_combine hgh htu ht hop hleft hxy.parsed).bind fun _ _ hjoined =>
        ih.climb hjoined hxy.rest

theorem arguments_step (depth height : Nat) {t u : Token} (htu : Same t u) (ht : t.kind = .call)
    {args args' : List Expr} (hargs : List.Forall₂ (Expr.Alike Near) args args') :
    AlikeRead Blame (LeftAlike Near Same)
      (Reader.arguments g (fuel + 1) depth t args height tokens)
      (Reader.arguments h (fuel + 1) depth u args' height others) := by
  rw [arguments_succ, arguments_succ]
  refine (ih.expression htokens).bind ?_
  rintro ⟨arg, rest⟩ ⟨arg', rest'⟩ ⟨harg, hrest⟩
  have hall : List.Forall₂ (Expr.Alike Near) (args ++ [arg.tree]) (args' ++ [arg'.tree]) :=
    List.rel_append hargs (.cons harg.tree .nil)
  cases hrest with
  | nil =>
    simp only [afterArgument, hgh.surface htu]
    exact alike_refuse _ (hgh.blame htu)
  | cons hnext hrest =>
    have hheight : arg'.height = arg.height := harg.height
    simp only [afterArgument, hgh.kind hnext, hgh.surface hnext, hheight]
    split
    · exact ih.arguments htu ht hall hrest
    split
    · exact (alike_finishCall hgh htu ht hall _).bind fun _ _ hparsed => .ok ⟨hparsed, hrest⟩
    · exact alike_refuse _ (hgh.blame hnext)

theorem operand_step (depth : Nat) :
    AlikeRead Blame (LeftAlike Near Same) (Reader.operand g (fuel + 1) depth tokens)
      (Reader.operand h (fuel + 1) depth others) := by
  by_cases hdepth : depth + 1 ≤ maxNesting
  case neg =>
    rw [operand_of_deep fuel hdepth, operand_of_deep fuel hdepth]
    exact alike_refuse _ hgh.last
  cases htokens with
  | nil =>
    simp only [Reader.operand, Nat.not_lt.mpr hdepth, ↓reduceIte]
    exact alike_refuse _ hgh.last
  | @cons t u rest rest' htu hrest =>
    have hkind := hgh.kind htu
    have hsurface := hgh.surface htu
    by_cases hcall : t.kind = .call
    · have hcall' : u.kind = .call := hkind.trans hcall
      have hdrop := List.forall₂_drop 1 hrest
      rcases hmore : rest.drop 1 with _ | ⟨next, more⟩
      · rw [hmore, List.forall₂_nil_left_iff] at hdrop
        rw [operand_of_call_nil fuel rest hdepth hcall hmore,
          operand_of_call_nil fuel rest' hdepth hcall' hdrop]
        exact ih.arguments htu hcall .nil .nil
      rw [hmore, List.forall₂_cons_left_iff] at hdrop
      obtain ⟨next', more', hnext, hmores, hmore'⟩ := hdrop
      by_cases hclosing : next.kind = .closing
      · rw [operand_of_call_closing fuel rest hdepth hcall hmore hclosing,
          operand_of_call_closing fuel rest' hdepth hcall' hmore'
            ((hgh.kind hnext).trans hclosing)]
        exact (alike_finishCall hgh htu hcall .nil 0).bind fun _ _ hparsed => .ok ⟨hparsed, hmores⟩
      · rw [operand_of_call fuel rest hdepth hcall hmore hclosing,
          operand_of_call fuel rest' hdepth hcall' hmore' (hgh.kind hnext ▸ hclosing)]
        exact ih.arguments htu hcall .nil (.cons hnext hmores)
    by_cases hopening : t.kind = .opening
    · rw [operand_of_opening fuel rest hdepth hopening,
        operand_of_opening fuel rest' hdepth (hkind.trans hopening)]
      refine (ih.expression hrest).bind ?_
      rintro ⟨inner, rest⟩ ⟨inner', rest'⟩ ⟨hinner, hrest⟩
      cases hrest with
      | nil => exact alike_refuse _ (hgh.blame htu)
      | cons hnext hrest =>
        simp only [close, hgh.kind hnext, hgh.surface hnext]
        split
        · exact .ok ⟨hinner, hrest⟩
        · exact alike_refuse _ (hgh.blame hnext)
    by_cases hunary : t.kind = .unary
    · have hunary' : u.kind = .unary := hkind.trans hunary
      have hfound : h.lang.unary? u.surface = g.lang.unary? t.surface := by
        rw [hgh.lang, hsurface]
      rcases hop : g.lang.unary? t.surface with _ | op
      · rw [operand_of_unary_unknown fuel rest hdepth hunary hop,
          operand_of_unary_unknown fuel rest' hdepth hunary' (hfound.trans hop), hsurface]
        exact alike_refuse _ (hgh.blame htu)
      · rw [operand_of_unary fuel rest hdepth hunary hop,
          operand_of_unary fuel rest' hdepth hunary' (hfound.trans hop), hsurface]
        refine (ih.expression hrest).bind fun x y hxy => .ok ⟨⟨?_, ?_⟩, hxy.rest⟩
        · exact .unary _ hxy.parsed.tree (hgh.near htu (Or.inr (Or.inr (Or.inl ⟨hunary, op, hop⟩))))
        · exact congrArg (· + 1) hxy.parsed.height
    · rw [operand_of_single fuel rest hdepth hcall hopening hunary,
        operand_of_single fuel rest' hdepth (hkind ▸ hcall) (hkind ▸ hopening) (hkind ▸ hunary)]
      exact (alike_single hgh htu).bind fun _ _ hparsed => .ok ⟨hparsed, hrest⟩

end ReadsAlike

/-- Both readers read alike, by induction on the fuel. -/
theorem readsAlike {Same : Token → Token → Prop} {g h : Setting}
    (hgh : Setting.Alike Near Blame Same g h) (fuel : Nat) :
    ReadsAlike Near Blame Same g h fuel := by
  induction fuel with
  | zero =>
    constructor
    all_goals
      intros
      simp only [expression, climb, operand, arguments]
      exact alike_refuse _ hgh.last
  | succ fuel ih =>
    constructor
    · intro depth least tokens others htokens
      rw [expression_succ, expression_succ]
      exact (ih.operand htokens).bind fun _ _ hleft => ih.climb hleft.parsed hleft.rest
    · intro depth least left left' tokens others hleft htokens
      exact ih.climb_step hgh htokens depth least hleft
    · intro depth tokens others htokens
      exact ih.operand_step hgh htokens depth
    · intro depth t u args args' height tokens others htu ht hargs htokens
      exact ih.arguments_step hgh htokens depth height htu ht hargs

end Reader

/-- Of tokens that are the same but for their places the same tree is read but for its sites. -/
theorem Script.read_alike {Same : Token → Token → Prop} {lang : Language} {source other : Source}
    {tokens others : List Token} (htokens : tokenize lang.operators source = .ok tokens)
    (hothers : tokenize lang.operators other = .ok others)
    (hsame : List.Forall₂ Same tokens others)
    (hlexeme : ∀ {t u}, Same t u → u.lexeme = t.lexeme)
    (hnear : ∀ {t u}, Same t u → Near ⟨t, source⟩ ⟨u, other⟩) :
    AlikeRead Near (fun script again => script.root.Alike Near again.root)
      (Script.read lang source) (Script.read lang other) := by
  have hlength := hsame.length_eq
  have hlast : Option.Rel Same tokens.getLast? others.getLast? := by
    have hreversed := List.rel_reverse hsame
    rw [← List.head?_reverse, ← List.head?_reverse]
    generalize tokens.reverse = ts at hreversed
    generalize others.reverse = us at hreversed
    cases hreversed with
    | nil => exact .none
    | cons hlast _ => exact .some hlast
  unfold Script.read
  rw [htokens, hothers]
  simp only [bind, Except.bind]
  generalize tokens.getLast? = last at hlast
  generalize others.getLast? = last' at hlast
  cases hlast with
  | none => exact .error ⟨rfl, rfl, .none⟩
  | @some last last' hlast =>
    have hgh : Reader.Setting.Alike Near Near Same ⟨lang, source, last⟩ ⟨lang, other, last'⟩ :=
      ⟨rfl, hlexeme, fun htu _ => hnear htu, hnear, fun h => h, hnear hlast⟩
    simp only [← hlength]
    refine ((Reader.readsAlike hgh _).expression hsame).bind ?_
    rintro ⟨p, rest⟩ ⟨q, rest'⟩ ⟨hparsed, hrest⟩
    cases hrest with
    | nil => exact .ok hparsed.tree
    | cons htu _ =>
      have hsurface := hgh.surface htu
      simp only [hsurface]
      exact Reader.alike_refuse _ (hgh.blame htu)

end TickScript
