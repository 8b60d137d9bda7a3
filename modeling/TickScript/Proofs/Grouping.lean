-- Statements in groups. Parentheses around consecutive statements change nothing in what these do,
-- and neither does a `;` behind the last of them.
import TickScript.Proofs.Alike
import TickScript.Proofs.Respects
import TickScript.Proofs.Statements

namespace TickScript

variable {t : Token} {Same : Token → Token → Prop} {tokens others : List Token} {lang : Language}
  {segments : List (List Token)} {qs : List Parsed} {name : Option String} {script : Script}

/-! ## Languages -/

/-- An operator binds closer than `;` and is spelled with neither `;` nor `)`. -/
def Registration.SetsApart : Registration → Prop
  | .operator spelling precedence .. | .assignment spelling precedence _
  | .unary spelling precedence _ =>
    2 ≤ precedence ∧ ';' ∉ spelling.toList ∧ ')' ∉ spelling.toList
  | .function .. => True

namespace Language

theorem separates_standard : standard.Separates where
  sequence := rfl
  notUnary := rfl
  binary := by
    intro spelling op hop hspelling
    have hall : ∀ entry ∈ standard.binary, entry.1 ≠ ";" →
        2 ≤ entry.2.precedence ∧ entry.2.role ≠ .sequences := by
      have heq : standard.binary =
          (Library.withAssignments (Library.withSearch (Library.withOperators .bare))).binary := rfl
      rw [heq]
      simp [Library.withAssignments, Library.withSearch, Library.withOperators, addAssignment,
        addOperator, addUnary, addBinary, bare, Language.empty]
    exact hall _ (mem_of_lookup hop) hspelling
  unary := by
    intro spelling op hop
    have hall : ∀ entry ∈ standard.unary, 2 ≤ entry.2.precedence := by
      have heq : standard.unary =
          [("!", ⟨60, Library.negation⟩), ("+", ⟨60, Library.plus⟩), ("-", ⟨60, Library.minus⟩)] :=
        rfl
      rw [heq]
      simp
    exact hall _ (mem_of_lookup hop)

theorem Separates.addBinary (hlang : lang.Separates) {spelling : String}
    (hspelling : ';' ∉ spelling.toList) {op : BinaryOperator} (hop : 2 ≤ op.precedence)
    (hrole : op.role ≠ .sequences) : (lang.addBinary spelling op).Separates where
  sequence := by
    have hne : (";" == spelling) = false := beq_false_of_ne fun h => hspelling (h ▸ by simp)
    rw [binary?, Language.addBinary, List.lookup_cons, hne]
    exact hlang.sequence
  notUnary := hlang.notUnary
  binary h hne := by
    rcases lookup_cons h with rfl | h
    · exact ⟨hop, hrole⟩
    · exact hlang.binary h hne
  unary := hlang.unary

theorem Separates.register (hlang : lang.Separates) {r : Registration} (hr : r.SetsApart) :
    (lang.register r).Separates := by
  cases r with
  | operator spelling precedence side apply => exact hlang.addBinary hr.2.1 hr.1 nofun
  | assignment spelling precedence apply => exact hlang.addBinary hr.2.1 hr.1 nofun
  | unary spelling precedence apply =>
    refine ⟨hlang.sequence, ?_, hlang.binary, fun h => ?_⟩
    · have hne : (";" == spelling) = false := beq_false_of_ne fun h => hr.2.1 (h ▸ by simp)
      rw [unary?, Language.register, addUnary, List.lookup_cons, hne]
      exact hlang.notUnary
    · rcases lookup_cons h with rfl | h
      · exact hr.1
      · exact hlang.unary h
  | function name f => exact ⟨hlang.sequence, hlang.notUnary, hlang.binary, hlang.unary⟩

theorem separates_extended {rs : List Registration} (hrs : ∀ r ∈ rs, r.SetsApart) :
    (extended rs).Separates :=
  List.foldlRecOn rs register separates_standard fun _ hlang r hr => hlang.register (hrs r hr)

theorem knows_extended (rs : List Registration) :
    (extended rs).operators.Knows (standardSpellings ++ rs.filterMap Registration.spelling?) := by
  obtain ⟨base, hstandard, hspellings⟩ := standard_eq_built
  have heq : extended rs = built (base ++ rs) := by
    rw [extended, hstandard, built, built, List.foldl_append]
  have hall : spellings (base ++ rs) =
      standardSpellings ++ rs.filterMap Registration.spelling? := by
    rw [← hspellings, spellings, spellings, List.filterMap_append, List.append_assoc]
  rw [heq, ← hall]
  exact knows_built _

end Language

theorem OperatorTable.Knows.setsApart {ops : OperatorTable} {known : List String}
    (h : ops.Knows known) (hsemicolon : ";" ∈ known)
    (hknown : ∀ op ∈ known, (';' ∈ op.toList → op = ";") ∧ ')' ∉ op.toList) : ops.SetsApart where
  operator := (h.isOperator_iff ";").mpr hsemicolon
  start := (h.isStart_iff ";").mpr ⟨by decide, ";", hsemicolon, List.prefix_rfl⟩
  semicolon := by
    intro s hs hmem
    obtain ⟨_, op, hop, hbegins⟩ := (h.isStart_iff s).mp hs
    obtain rfl := (hknown op hop).1 (hbegins.subset hmem)
    have hlength : ";".toList.length ≤ s.toList.length := List.length_pos_of_mem hmem
    exact String.toList_inj.mp (hbegins.eq_of_length_le hlength)
  closing := by
    intro s hs hmem
    obtain ⟨_, op, hop, hbegins⟩ := (h.isStart_iff s).mp hs
    exact (hknown op hop).2 (hbegins.subset hmem)

theorem Language.setsApart_extended {rs : List Registration} (hrs : ∀ r ∈ rs, r.SetsApart) :
    (extended rs).operators.SetsApart := by
  refine (knows_extended rs).setsApart (by simp [standardSpellings]) fun op hop => ?_
  rcases List.mem_append.mp hop with hop | hop
  · have hall : ∀ op ∈ standardSpellings, (';' ∈ op.toList → op = ";") ∧ ')' ∉ op.toList := by
      decide
    exact hall op hop
  · obtain ⟨r, hr, hspelling⟩ := List.mem_filterMap.mp hop
    have happart := hrs r hr
    cases r with
    | operator | assignment | unary =>
      cases hspelling
      exact ⟨fun hmem => absurd hmem happart.2.1, happart.2.2⟩
    | function => cases hspelling

/-! ## Steps -/

section Steps

variable (lang : Language) (run : Expr → Lazy)

theorem Expr.steps_ne_nil : ∀ e : Expr, e.steps ≠ []
  | .sequence [] => by simp [Expr.steps]
  | .sequence (e :: rest) => by simp [Expr.steps, e.steps_ne_nil]
  | .number _ | .text _ | .var .. | .unary .. | .binary .. | .call .. | .define .. => by
    simp [Expr.steps]

theorem Expr.allSteps_ne_nil {es : List Expr} (h : es ≠ []) : Expr.allSteps es ≠ [] := by
  cases es with
  | nil => exact absurd rfl h
  | cons e es => simp [Expr.allSteps, e.steps_ne_nil]

theorem Expr.denoteSequence_cons (e : Expr) {fs : List Expr} (hfs : fs ≠ []) (kind : Kind) :
    denoteSequence lang run (e :: fs) kind =
      (denote lang run e .void >>= fun _ => denoteSequence lang run fs kind) := by
  cases fs with
  | nil => exact absurd rfl hfs
  | cons f fs => rw [denoteSequence]

/-- Statements behind others are done after them. -/
theorem Expr.denoteSequence_append {es fs : List Expr} (hes : es ≠ []) (hfs : fs ≠ [])
    (kind : Kind) : denoteSequence lang run (es ++ fs) kind =
      (denoteSequence lang run es .void >>= fun _ => denoteSequence lang run fs kind) := by
  induction es with
  | nil => exact absurd rfl hes
  | cons e es ih =>
    rw [List.cons_append, denoteSequence_cons lang run e (by simp [hfs])]
    rcases es with _ | ⟨e', es⟩
    · rfl
    · rw [ih (by simp), denoteSequence_cons lang run e (by simp), bind_assoc]

mutual

/-- A tree does its steps one after the other. -/
theorem Expr.denote_eq_steps : ∀ e : Expr, e.denote lang run = denoteSequence lang run e.steps
  | .sequence [] => by simp [Expr.steps, Expr.denote, Expr.denoteSequence]
  | .sequence (e :: rest) => by
    rw [Expr.denote, Expr.denoteSequence_eq_allSteps (e :: rest) (by simp), Expr.steps,
      Expr.allSteps]
  | .number _ | .text _ | .var .. | .unary .. | .binary .. | .call .. | .define .. => by
    simp [Expr.steps, Expr.denoteSequence]

theorem Expr.denoteSequence_eq_allSteps : ∀ es : List Expr, es ≠ [] →
    denoteSequence lang run es = denoteSequence lang run (Expr.allSteps es)
  | [], h => absurd rfl h
  | [e], _ => by
    rw [Expr.allSteps, Expr.allSteps, List.append_nil, Expr.denoteSequence, e.denote_eq_steps]
  | e :: f :: rest, _ => by
    funext kind
    rw [Expr.allSteps, Expr.denoteSequence_append lang run e.steps_ne_nil
      (Expr.allSteps_ne_nil (by simp)), ← Expr.denoteSequence_eq_allSteps (f :: rest) (by simp),
      ← e.denote_eq_steps, Expr.denoteSequence]

end

end Steps

/-! ## Sites -/

section Sites

variable {Near : Site → Site → Prop}

mutual

theorem Expr.Alike.steps : ∀ {e f : Expr}, e.Alike Near f →
    List.Forall₂ (Expr.Alike Near) e.steps f.steps
  | .sequence [], _, .sequence .nil => .cons (.sequence .nil) .nil
  | .sequence (_ :: _), _, .sequence (.cons h hs) => by
    simp only [Expr.steps]
    exact List.rel_append h.steps (Expr.alike_allSteps hs)
  | .number _, _, .number x => .cons (.number x) .nil
  | .text _, _, .text s => .cons (.text s) .nil
  | .var .., _, .var name isTarget hsite => .cons (.var name isTarget hsite) .nil
  | .unary .., _, .unary operator h hsite => .cons (.unary operator h hsite) .nil
  | .binary .., _, .binary operator hl hr hsite => .cons (.binary operator hl hr hsite) .nil
  | .call .., _, .call name hargs hsite => .cons (.call name hargs hsite) .nil
  | .define .., _, .define name params h hsite => .cons (.define name params h hsite) .nil

theorem Expr.alike_allSteps : ∀ {es fs : List Expr}, List.Forall₂ (Expr.Alike Near) es fs →
    List.Forall₂ (Expr.Alike Near) (Expr.allSteps es) (Expr.allSteps fs)
  | [], _, .nil => .nil
  | _ :: _, _, .cons h hs => by
    simp only [Expr.allSteps]
    exact List.rel_append h.steps (Expr.alike_allSteps hs)

end

mutual

theorem Expr.alike_refl (hnear : ∀ s, Near s s) : ∀ e : Expr, e.Alike Near e
  | .number x => .number x
  | .text s => .text s
  | .var name isTarget s => .var name isTarget (hnear s)
  | .unary operator e s => .unary operator (e.alike_refl hnear) (hnear s)
  | .binary operator e f s => .binary operator (e.alike_refl hnear) (f.alike_refl hnear) (hnear s)
  | .call name args s => .call name (Expr.allAlike_refl hnear args) (hnear s)
  | .define name params e s => .define name params (e.alike_refl hnear) (hnear s)
  | .sequence items => .sequence (Expr.allAlike_refl hnear items)

theorem Expr.allAlike_refl (hnear : ∀ s, Near s s) :
    ∀ es : List Expr, List.Forall₂ (Expr.Alike Near) es es
  | [] => .nil
  | e :: es => .cons (e.alike_refl hnear) (Expr.allAlike_refl hnear es)

end

/-- Trees and procedures that are the same but for their sites. -/
def Likeness.ofSites (Near : Site → Site → Prop) : Likeness where
  site := Near
  tree := Expr.Alike Near
  procedure _ p q :=
    q.name = p.name ∧ q.params = p.params ∧ p.body.Alike Near q.body ∧ Near p.site q.site
  parts h := by
    cases h with
    | define name params h hsite => exact .define ⟨rfl, rfl, h, hsite⟩
    | number | text | var | unary | binary | call | sequence => constructor <;> assumption
  name h := h.1
  params h := h.2.1
  body h := h.2.2.1

theorem State.like_refl (hnear : ∀ s, Near s s) (s : State) : s.Like (.ofSites Near) s := by
  refine .mk s.locals (.mk (m := s.machine) (fun name => ?_) (.same _) ?_ ?_)
  · cases s.machine.procedures.get? name with
    | none => exact .none
    | some p => exact .some ⟨rfl, rfl, p.body.alike_refl hnear, hnear p.site⟩
  · exact List.forall₂_same.mpr fun r _ => .same r
  · refine .mk (List.forall₂_same.mpr fun job _ => ?_)
    have hjob : job.Like (.ofSites Near) { job with script := job.script } :=
      .mk (job.script.root.alike_refl hnear)
    exact hjob

end Sites

/-! ## The same statements elsewhere -/

/-- The token is a parenthesis or a `;`, which stands for an operator. -/
def Token.groups (t : Token) : Bool :=
  t.kind = .opening || t.kind = .closing ||
    (t.kind = .operator || t.kind = .unary) && t.surface = ";"

theorem Token.groups_of_lexeme {u : Token} (h : u.lexeme = t.lexeme) : u.groups = t.groups := by
  obtain ⟨hkind, hsurface⟩ := Lexeme.mk.inj h
  rw [groups, groups, hkind, hsurface]

namespace Reader

variable {g h : Setting}

/-- Tokens with the same lexemes are read alike in any place. -/
theorem alike_of_lexeme (hlang : h.lang = g.lang) :
    Setting.Alike (fun _ _ => True) (fun _ _ => True) (fun t u => u.lexeme = t.lexeme) g h :=
  ⟨hlang, fun h => h, fun _ _ => trivial, fun _ => trivial, fun _ => trivial, trivial⟩

/-- What is read to its end at one place is read so at another. -/
theorem expression_alike {Near : Site → Site → Prop}
    (hgh : Setting.Alike Near (fun _ _ => True) Same g h) {fuel depth least : Nat} {p : Parsed}
    (hread : expression g fuel depth least tokens = .ok (p, []))
    (hsame : List.Forall₂ Same tokens others) :
    ∃ q, expression h fuel depth least others = .ok (q, []) ∧ ParsedAlike Near p q := by
  have halike : AlikeRead (fun _ _ => True) (LeftAlike Near Same)
      (expression g fuel depth least tokens) (expression h fuel depth least others) :=
    (readsAlike hgh fuel).expression hsame
  rw [hread] at halike
  generalize expression h fuel depth least others = again at halike ⊢
  cases halike with
  | @ok _ x hboth =>
    obtain ⟨q, rest⟩ := x
    obtain ⟨hparsed, hrest⟩ := hboth
    cases hrest
    exact ⟨q, rfl, hparsed⟩

theorem Alone.alike {Near : Site → Site → Prop}
    (hgh : Setting.Alike Near (fun _ _ => True) Same g h) {q : Parsed} (halone : Alone g tokens q)
    (hsame : List.Forall₂ Same tokens others) :
    ∃ q', Alone h others q' ∧ q.tree.Alike Near q'.tree := by
  obtain ⟨fuel, depth, hread⟩ := halone
  obtain ⟨q', hread', halike⟩ := expression_alike hgh hread hsame
  exact ⟨q', ⟨fuel, depth, hread'⟩, halike.tree⟩

theorem Alone.again (hlang : h.lang = g.lang) {q : Parsed} (halone : Alone g tokens q)
    (hsame : others.map Token.lexeme = tokens.map Token.lexeme) : ∃ q', Alone h others q' := by
  obtain ⟨q', hq', _⟩ := halone.alike (alike_of_lexeme hlang) (forall₂_of_map_eq hsame)
  exact ⟨q', hq'⟩

theorem IsSemicolon.again {u : Token} (ht : IsSemicolon t) (h : u.lexeme = t.lexeme) :
    IsSemicolon u :=
  ⟨(congrArg Lexeme.kind h).trans ht.1, (congrArg Lexeme.surface h).trans ht.2⟩

/-- Tokens with the same lexemes are the same statements in any place. -/
theorem Chained.again (hlang : h.lang = g.lang) (hchained : Chained g tokens segments qs)
    (hsame : others.map Token.lexeme = tokens.map Token.lexeme) :
    ∃ segments' qs', Chained h others segments' qs' ∧
      segments'.map (List.map Token.lexeme) = segments.map (List.map Token.lexeme) := by
  induction hchained generalizing others with
  | last halone =>
    obtain ⟨q', hq'⟩ := halone.again hlang hsame
    exact ⟨_, _, .last hq', by simp [hsame]⟩
  | trailing halone ht =>
    rw [List.map_append, List.map_eq_append_iff] at hsame
    obtain ⟨segment', last, rfl, hsegment, hlast⟩ := hsame
    obtain ⟨u, rfl, hu⟩ := List.map_eq_singleton_iff.mp hlast
    obtain ⟨q', hq'⟩ := halone.again hlang hsegment
    exact ⟨_, _, .trailing hq' (ht.again hu), by simp [hsegment]⟩
  | cons halone ht _ ih =>
    rw [List.map_append, List.map_eq_append_iff] at hsame
    obtain ⟨segment', more, rfl, hsegment, hmore⟩ := hsame
    obtain ⟨u, rest', rfl, hu, hrest⟩ := List.map_eq_cons_iff.mp hmore
    obtain ⟨q', hq'⟩ := halone.again hlang hsegment
    obtain ⟨segments', qs', hchained', hlexemes⟩ := ih hrest
    exact ⟨_, _, .cons hq' (ht.again hu) hchained', by simp [hsegment, hlexemes]⟩

theorem Chained.filter_groups (hchained : Chained g tokens segments qs) :
    tokens.filter (!·.groups) = segments.flatten.filter (!·.groups) := by
  have hgroups : ∀ {t}, IsSemicolon t → t.groups = true := fun ht => by
    simp [Token.groups, ht.1, ht.2]
  induction hchained with
  | last => simp
  | trailing _ ht => simp [hgroups ht]
  | cons _ ht _ ih => simp [hgroups ht, ih]

/-! ## Statements that are done one after the other -/

/-- The tokens do the steps of statements with these lexemes, each of them as it is read on its
own. -/
def Performs (g : Setting) (tokens : List Token) (pieces : List (List Lexeme)) : Prop :=
  ∃ segments qs, segments.map (List.map Token.lexeme) = pieces ∧
    List.Forall₂ (Alone g) segments qs ∧
    tokens.filter (!·.groups) = segments.flatten.filter (!·.groups) ∧ DoesSteps g tokens qs

section Performs

variable (hlang : g.lang.Separates)

include hlang

theorem Chained.performs (hchained : Chained g tokens segments qs) :
    Performs g tokens (segments.map (List.map Token.lexeme)) :=
  ⟨segments, qs, rfl, hchained.alone, hchained.filter_groups, hchained.doesSteps hlang⟩

theorem Performs.chain {first second : List Token} {pieces pieces' : List (List Lexeme)}
    (hfirst : Performs g first pieces) (hsecond : Performs g second pieces')
    (hsurface : t.surface = ";") (hkind : t.kind = .ofSign (first.getLast?.map (·.kind))) :
    Performs g (first ++ t :: second) (pieces ++ pieces') := by
  obtain ⟨segments, qs, rfl, halone, hfilter, hsteps⟩ := hfirst
  obtain ⟨segments', qs', rfl, halone', hfilter', hsteps'⟩ := hsecond
  have ht : t.groups = true := by
    rcases TokenKind.ofSign_cases (first.getLast?.map (·.kind)) with hsign | hsign <;>
      simp [Token.groups, hsurface, hkind, hsign]
  refine ⟨segments ++ segments', qs ++ qs', List.map_append, List.rel_append halone halone', ?_,
    hsteps.chain hlang hsteps' hsurface hkind⟩
  rw [List.filter_append, List.filter_cons_of_neg (by simp [ht]), hfilter, hfilter',
    List.flatten_append, List.filter_append]

theorem Performs.parentheses {inside : List Token} {pieces : List (List Lexeme)}
    (hinside : Performs g inside pieces) {opening closing : Token}
    (hopening : opening.kind = .opening) (hclosing : closing.kind = .closing) :
    Performs g (opening :: (inside ++ [closing])) pieces := by
  obtain ⟨segments, qs, rfl, halone, hfilter, hsteps⟩ := hinside
  refine ⟨segments, qs, rfl, halone, ?_, hsteps.parentheses hlang hopening hclosing⟩
  have hopens : opening.groups = true := by simp [Token.groups, hopening]
  have hcloses : closing.groups = true := by simp [Token.groups, hclosing]
  rw [List.filter_cons_of_neg (by simp [hopens]), List.filter_append, hfilter,
    List.filter_cons_of_neg (by simp [hcloses]), List.filter_nil, List.append_nil]

end Performs

/-- Statements with the same lexemes are the same trees but for their sites. -/
theorem forall₂_alike {Near : Site → Site → Prop}
    (hgh : Setting.Alike Near (fun _ _ => True) Same g h) {others : List (List Token)}
    (hsame : List.Forall₂ (List.Forall₂ Same) segments others) {qs' : List Parsed}
    (halone : List.Forall₂ (Alone g) segments qs) (halone' : List.Forall₂ (Alone h) others qs') :
    List.Forall₂ (fun q q' => q.tree.Alike Near q'.tree) qs qs' := by
  induction hsame generalizing qs qs' with
  | nil =>
    cases halone
    cases halone'
    exact .nil
  | cons hsegment _ ih =>
    cases halone with
    | cons hq hqs =>
      cases halone' with
      | @cons _ q' _ _ hq' hqs' =>
        obtain ⟨again, hagain, halike⟩ := hq.alike hgh hsegment
        obtain rfl : again = q' := by
          obtain ⟨_, _, hread⟩ := hagain
          obtain ⟨_, _, hread'⟩ := hq'
          exact congrArg Prod.fst (expression_unique hread' hread)
        exact .cons halike (ih hqs hqs')

end Reader

/-! ## Groups -/

/-- Statements, one after the other, with parentheses around some of them. -/
inductive Grouping
  | statement (code : String)
  | chain (first second : Grouping)
  | parentheses (inside : Grouping)

namespace Grouping

/-- The statements without the parentheses. -/
def statements : Grouping → List String
  | statement code => [code]
  | chain first second => first.statements ++ second.statements
  | parentheses inside => inside.statements

def text : Grouping → String
  | statement code => code
  | chain first second => first.text ++ "; " ++ second.text
  | parentheses inside => "(" ++ inside.text ++ ")"

/-- Statements without any parentheses. -/
def plain (first : String) : List String → Grouping
  | [] => statement first
  | next :: rest => chain (statement first) (plain next rest)

theorem statements_plain (first : String) (rest : List String) :
    (plain first rest).statements = first :: rest := by
  induction rest generalizing first with
  | nil => rfl
  | cons next rest ih => simp [plain, statements, ih]

theorem text_plain (first : String) (rest : List String) :
    (plain first rest).text = "; ".intercalate (first :: rest) := by
  induction rest generalizing first with
  | nil => simp [plain, text]
  | cons next rest ih => simp [plain, text, ih, String.intercalate_cons_cons]

theorem statements_ne_nil (a : Grouping) : a.statements ≠ [] := by
  induction a with
  | statement code => simp [statements]
  | chain first second ih _ => simp [statements, ih]
  | parentheses inside ih => exact ih

end Grouping

/-- The code is read as these lexemes wherever an operand is wanted, and these are statements that
have some of them each. -/
structure Language.Divides (lang : Language) (code : String) (xs : List Lexeme)
    (pieces : List (List Lexeme)) : Prop where
  ne_nil : xs ≠ []
  reads : ∀ {previous blanks}, TokenKind.precedesUnary previous = true →
    (∀ c ∈ blanks, Text.isBlank c = true) →
    Lexer.Reads lang.operators previous (blanks ++ code.toList) xs
  chained : ∀ {g : Reader.Setting} {tokens}, g.lang = lang → tokens.map Token.lexeme = xs →
    ∃ segments qs, Reader.Chained g tokens segments qs ∧
      segments.map (List.map Token.lexeme) = pieces

theorem Script.divides_of_read (hlang : lang.Separates) {code : String}
    (h : Script.read lang ⟨code, name⟩ = .ok script) :
    ∃ xs pieces, lang.Divides code xs pieces := by
  obtain ⟨tokens, last, p, htokens, hlast, hread, _⟩ := Script.read_eq_ok_iff.mp h
  obtain ⟨segments, qs, hchained⟩ := Reader.chained_of_expression hlang hread
  refine ⟨tokens.map Token.lexeme, segments.map (List.map Token.lexeme), ?_,
    fun hprevious hblanks => Lexer.reads_of_tokenize htokens hprevious hblanks,
    fun hg hothers => ?_⟩
  · intro hnil
    rw [List.map_eq_nil_iff.mp hnil] at hlast
    cases hlast
  · exact hchained.again hg hothers

namespace Grouping

variable (xs : String → List Lexeme)

/-- The lexemes of the text, from those of the statements. A `;` behind another one is no operator
between operands, and the text is refused then. -/
def lexemes : Grouping → List Lexeme
  | statement code => xs code
  | chain first second =>
    first.lexemes ++ ⟨.ofSign (first.lexemes.getLast?.map Lexeme.kind), ";"⟩ :: second.lexemes
  | parentheses inside => ⟨.opening, "("⟩ :: (inside.lexemes ++ [⟨.closing, ")"⟩])

variable {xs} {pieces : String → List (List Lexeme)}

theorem lexemes_ne_nil (a : Grouping)
    (ha : ∀ code ∈ a.statements, lang.Divides code (xs code) (pieces code)) :
    a.lexemes xs ≠ [] := by
  cases a with
  | statement code => exact (ha code (by simp [statements])).ne_nil
  | chain first second => simp [lexemes]
  | parentheses inside => simp [lexemes]

/-- The text is read as its statements are, with a `;` between them and parentheses around. -/
theorem reads (hops : lang.operators.SetsApart) (a : Grouping)
    (ha : ∀ code ∈ a.statements, lang.Divides code (xs code) (pieces code))
    {previous : Option TokenKind} (hprevious : TokenKind.precedesUnary previous = true)
    {blanks : List Char} (hblanks : ∀ c ∈ blanks, Text.isBlank c = true) :
    Lexer.Reads lang.operators previous (blanks ++ a.text.toList) (a.lexemes xs) := by
  induction a generalizing previous blanks with
  | statement code => exact (ha code (by simp [statements])).reads hprevious hblanks
  | chain first second ihf ihs =>
    simp only [statements, List.forall_mem_append] at ha
    have htext : blanks ++ (chain first second).text.toList =
        (blanks ++ first.text.toList) ++ ';' :: ([' '] ++ second.text.toList) := by
      simp [text]
    have hlast : ((first.lexemes xs).getLast?.map Lexeme.kind).or previous =
        (first.lexemes xs).getLast?.map Lexeme.kind := by
      rw [List.getLast?_eq_some_getLast (first.lexemes_ne_nil ha.1)]
      rfl
    have hsign : ∀ kind, TokenKind.precedesUnary (some (.ofSign kind)) = true := fun kind => by
      rcases TokenKind.ofSign_cases kind with h | h <;> rw [h] <;> rfl
    rw [htext]
    refine (ihf ha.1 hprevious hblanks).append hops (Or.inl rfl) fun blanks' hblanks' => ?_
    rw [hlast]
    -- Behind the `;` the other statements are read as they are at the start of a text.
    exact .semicolon hops hblanks' (ihs ha.2 (hsign _) (List.forall_mem_singleton.mpr rfl))
  | parentheses inside ih =>
    have htext : blanks ++ (parentheses inside).text.toList =
        blanks ++ '(' :: ([] ++ inside.text.toList ++ [')']) := by
      simp [text]
    rw [htext]
    refine .opening hprevious hblanks ?_
    exact (ih ha rfl (List.forall_mem_nil _)).append hops (Or.inr rfl) fun _ hblanks' =>
      .closing hblanks' (.nil _ _)

/-- Tokens of the text do the steps of its statements. -/
theorem performs (hlang : lang.Separates) (a : Grouping)
    (ha : ∀ code ∈ a.statements, lang.Divides code (xs code) (pieces code)) {g : Reader.Setting}
    (hg : g.lang = lang) (htokens : tokens.map Token.lexeme = a.lexemes xs) :
    Reader.Performs g tokens (a.statements.flatMap pieces) := by
  subst hg
  induction a generalizing tokens with
  | statement code =>
    obtain ⟨segments, qs, hchained, hpieces⟩ := (ha code (by simp [statements])).chained rfl htokens
    simpa [statements, hpieces] using hchained.performs hlang
  | chain first second ihf ihs =>
    simp only [statements, List.forall_mem_append] at ha
    obtain ⟨before, rest, rfl, hfirst, hrest⟩ := List.map_eq_append_iff.mp htokens
    obtain ⟨t, after, rfl, ht, hsecond⟩ := List.map_eq_cons_iff.mp hrest
    have hkind : t.kind = .ofSign (before.getLast?.map (·.kind)) := by
      rw [← hfirst, List.getLast?_map, Option.map_map] at ht
      exact congrArg Lexeme.kind ht
    rw [statements, List.flatMap_append]
    exact (ihf hfirst ha.1).chain hlang (ihs hsecond ha.2) (congrArg Lexeme.surface ht) hkind
  | parentheses inside ih =>
    obtain ⟨opening, rest, rfl, hopening, hrest⟩ := List.map_eq_cons_iff.mp htokens
    obtain ⟨within, last, rfl, hinside, hlast⟩ := List.map_eq_append_iff.mp hrest
    obtain ⟨closing, rfl, hclosing⟩ := List.map_eq_singleton_iff.mp hlast
    exact (ih hinside ha).parentheses hlang (congrArg Lexeme.kind hopening)
      (congrArg Lexeme.kind hclosing)

end Grouping

/-! ## Regrouped scripts -/

/-- The sites are the same, or they are those of tokens that go together in the two texts: with
the parentheses and every `;` left out, each comes at the same place among the tokens. -/
inductive Regrouped (ops : OperatorTable) (source other : Source) : Site → Site → Prop
  | same (s : Site) : Regrouped ops source other s s
  | moved {tokens others : List Token} {t u : Token}
      (htokens : tokenize ops source = .ok tokens) (hothers : tokenize ops other = .ok others)
      (h : (t, u) ∈ (tokens.filter (!·.groups)).zip (others.filter (!·.groups))) :
      Regrouped ops source other ⟨t, source⟩ ⟨u, other⟩

/-- What is done of a script depends on the steps that it takes. -/
theorem endsLike_of_steps {Near : Site → Site → Prop} (hnear : ∀ s, Near s s)
    (hlang : lang.Respects (.ofSites Near)) {other : Script}
    (h : List.Forall₂ (Expr.Alike Near) script.root.steps other.root.steps) (kind : Kind)
    (s : State) :
    EndsLike (.ofSites Near) Eq (script.evaluate (evaluate lang) kind s)
      (other.evaluate (evaluate lang) kind s) := by
  have hsteps : ∀ e : Expr, evaluate lang e =
      Expr.denoteSequence lang (evaluateWithin lang (maxCallDepth + 1)) e.steps := fun e =>
    e.denote_eq_steps lang _
  refine Agree.reported ?_ s s (State.like_refl hnear s)
  rw [hsteps, hsteps]
  exact like_denoteSequence hlang (like_evaluateWithin hlang _) h kind

/-- What a grouped text is read as: its statements, each as it is read on its own. -/
theorem Script.steps_of_read (hlang : lang.Separates) (hops : lang.operators.SetsApart)
    {xs : String → List Lexeme} {pieces : String → List (List Lexeme)} {a : Grouping}
    (ha : ∀ code ∈ a.statements, lang.Divides code (xs code) (pieces code))
    (h : Script.read lang ⟨a.text, name⟩ = .ok script) :
    ∃ tokens last segments qs, tokenize lang.operators ⟨a.text, name⟩ = .ok tokens ∧
      segments.map (List.map Token.lexeme) = a.statements.flatMap pieces ∧
      List.Forall₂ (Reader.Alone ⟨lang, ⟨a.text, name⟩, last⟩) segments qs ∧
      tokens.filter (!·.groups) = segments.flatten.filter (!·.groups) ∧
      script.root.steps = qs.flatMap (·.tree.steps) := by
  obtain ⟨tokens, last, p, htokens, _, hread, rfl⟩ := Script.read_eq_ok_iff.mp h
  have hreads : Lexer.Reads lang.operators none ([] ++ a.text.toList) (a.lexemes xs) :=
    a.reads hops ha rfl (List.forall_mem_nil _)
  have hlexemes := Lexer.lexeme_of_reads htokens hreads
  obtain ⟨segments, qs, hpieces, halone, hfilter, hsteps⟩ :=
    a.performs (g := ⟨lang, _, last⟩) hlang ha rfl hlexemes
  exact ⟨tokens, last, segments, qs, htokens, hpieces, halone, hfilter, hsteps.steps_eq hlang hread⟩

theorem forall₂_flatten_zip {α β : Type} {R : α → β → Prop} {xs : List (List α)}
    {ys : List (List β)} (h : List.Forall₂ (List.Forall₂ R) xs ys) :
    List.Forall₂ (List.Forall₂ fun a b => R a b ∧ (a, b) ∈ xs.flatten.zip ys.flatten) xs ys := by
  induction h with
  | nil => exact .nil
  | cons hx _ ih =>
    rw [List.flatten_cons, List.flatten_cons, List.zip_append hx.length_eq]
    refine .cons ?_ (ih.imp fun _ _ hy => hy.imp fun _ _ hab =>
      ⟨hab.1, List.mem_append_right _ hab.2⟩)
    exact List.forall₂_iff_zip.mpr ⟨hx.length_eq, fun hab =>
      ⟨List.forall₂_zip hx hab, List.mem_append_left _ hab⟩⟩

theorem mem_zip_filter {α β : Type} {p : α → Bool} {q : β → Bool} {xs : List α} {ys : List β}
    (h : List.Forall₂ (fun a b => q b = p a) xs ys) {a : α} {b : β} (hab : (a, b) ∈ xs.zip ys)
    (ha : p a = true) : (a, b) ∈ (xs.filter p).zip (ys.filter q) := by
  induction h with
  | nil => cases hab
  | @cons x y xs ys hxy _ ih =>
    rcases List.mem_cons.mp hab with heq | hab
    · cases heq
      rw [List.filter_cons_of_pos ha, List.filter_cons_of_pos (hxy.trans ha)]
      exact List.mem_cons_self
    · cases hx : p x with
      | true =>
        rw [List.filter_cons_of_pos hx, List.filter_cons_of_pos (hxy.trans hx)]
        exact List.mem_cons_of_mem _ (ih hab)
      | false =>
        rw [List.filter_cons_of_neg (by simp [hx]), List.filter_cons_of_neg (by simp [hxy, hx])]
        exact ih hab

theorem Reader.Marks.not_groups (hlang : lang.Separates) (h : Marks lang t) : t.groups = false := by
  rcases h with h | h | ⟨h, op, hop⟩ | ⟨h, op, hop, hrole⟩
  · simp [Token.groups, h]
  · simp [Token.groups, h]
  · have hne : t.surface ≠ ";" := fun hsurface => by
      rw [hsurface, hlang.notUnary] at hop
      cases hop
    simp [Token.groups, h, hne]
  · have hne : t.surface ≠ ";" := fun hsurface => by
      rw [hsurface, hlang.sequence] at hop
      cases hop
      exact hrole rfl
    simp [Token.groups, h, hne]

/-- Two texts of the same statements are read as scripts that take the same steps. -/
theorem Script.steps_alike (hlang : lang.Separates) (hops : lang.operators.SetsApart)
    {a b : Grouping} (hab : b.statements = a.statements) {names : String → Option String}
    (ha : ∀ code ∈ a.statements, ∃ script, Script.read lang ⟨code, names code⟩ = .ok script)
    {name' : Option String} {other : Script} (h : Script.read lang ⟨a.text, name⟩ = .ok script)
    (h' : Script.read lang ⟨b.text, name'⟩ = .ok other) :
    List.Forall₂ (Expr.Alike (Regrouped lang.operators ⟨a.text, name⟩ ⟨b.text, name'⟩))
      script.root.steps other.root.steps := by
  -- Each statement is divided once and for all, so both texts are divided in the same way.
  have hdivides : ∀ code, ∃ xs pieces, code ∈ a.statements → lang.Divides code xs pieces := by
    intro code
    by_cases hcode : code ∈ a.statements
    · obtain ⟨script, hscript⟩ := ha code hcode
      obtain ⟨xs, pieces, hdivides⟩ := Script.divides_of_read hlang hscript
      exact ⟨xs, pieces, fun _ => hdivides⟩
    · exact ⟨[], [], fun h => absurd h hcode⟩
  choose xs pieces hdivides using hdivides
  obtain ⟨tokens, last, segments, qs, htokens, hpieces, halone, hfilter, hsteps⟩ :=
    Script.steps_of_read hlang hops hdivides h
  obtain ⟨others, last', segments', qs', hothers, hpieces', halone', hfilter', hsteps'⟩ :=
    Script.steps_of_read hlang hops (hab ▸ hdivides) h'
  rw [hab, ← hpieces] at hpieces'
  have hsame : List.Forall₂ (List.Forall₂ fun t u : Token => u.lexeme = t.lexeme) segments
      segments' :=
    (forall₂_of_map_eq hpieces').imp fun _ _ h => forall₂_of_map_eq h
  have hgroups : List.Forall₂ (fun t u : Token => (!u.groups) = !t.groups) segments.flatten
      segments'.flatten :=
    (List.rel_flatten hsame).imp fun _ _ h => congrArg _ (Token.groups_of_lexeme h)
  have hgh : Reader.Setting.Alike (Regrouped lang.operators ⟨a.text, name⟩ ⟨b.text, name'⟩)
      (fun _ _ => True) (fun t u => u.lexeme = t.lexeme ∧
        (t, u) ∈ segments.flatten.zip segments'.flatten)
      ⟨lang, ⟨a.text, name⟩, last⟩ ⟨lang, ⟨b.text, name'⟩, last'⟩ := by
    refine ⟨rfl, And.left, fun htu hmarks => .moved htokens hothers ?_, fun _ => trivial,
      fun _ => trivial, trivial⟩
    rw [hfilter, hfilter']
    exact mem_zip_filter hgroups htu.2 (by simp [hmarks.not_groups hlang])
  have hqs := Reader.forall₂_alike hgh (forall₂_flatten_zip hsame) halone halone'
  rw [hsteps, hsteps']
  exact List.rel_flatMap hqs fun _ _ h => h.steps

/-- A script is read as before with one more `;` behind it. -/
theorem Script.read_semicolon (hlang : lang.Separates) (hops : lang.operators.SetsApart)
    {source : Source} (h : Script.read lang source = .ok script)
    (htokens : tokenize lang.operators source = .ok tokens)
    (hlast : ∀ t ∈ tokens.getLast?, ¬ Reader.IsSemicolon t) (name : Option String) :
    ∃ again, Script.read lang ⟨source.code ++ ";", name⟩ = .ok again ∧
      script.root.Alike (fun s t => s.source = source ∧
        t = ⟨s.token, ⟨source.code ++ ";", name⟩⟩) again.root := by
  obtain ⟨_, last, p, htokens', hlast', hread, rfl⟩ := Script.read_eq_ok_iff.mp h
  rw [htokens] at htokens'
  cases htokens'
  obtain ⟨t, hmore, ht⟩ := tokenize_semicolon hops htokens name
  -- The last token ends an operand, and so the `;` behind it is an operator.
  have hne : tokens ≠ [] := by
    rintro rfl
    cases hlast'
  obtain ⟨segments, qs, hchained⟩ := Reader.chained_of_expression hlang hread
  have hkind := (hchained.endsOperand hlang hlast).ofSign hne
  have hsemicolon : Reader.IsSemicolon t :=
    ⟨(congrArg Lexeme.kind ht).trans hkind, congrArg Lexeme.surface ht⟩
  have hgh : Reader.Setting.Alike
      (fun s t => s.source = source ∧ t = ⟨s.token, ⟨source.code ++ ";", name⟩⟩)
      (fun _ _ => True) Eq ⟨lang, source, last⟩ ⟨lang, ⟨source.code ++ ";", name⟩, t⟩ :=
    ⟨rfl, fun h => h ▸ rfl, fun h _ => ⟨rfl, h ▸ rfl⟩, fun _ => trivial, fun _ => trivial, trivial⟩
  obtain ⟨q, hagain, halike⟩ := Reader.expression_alike hgh hread (List.forall₂_refl tokens)
  have hlength : 2 * tokens.length + 2 ≤ 2 * (tokens ++ [t]).length + 2 := by
    rw [List.length_append]
    omega
  exact ⟨⟨q.tree, _⟩, Script.read_eq_ok_iff.mpr ⟨tokens ++ [t], t, q, hmore, by simp,
    Reader.expression_concat hlang hsemicolon hlength hagain hlast, rfl⟩, halike.tree⟩

/-- Let the operators of a host bind closer than `;` and be spelled without `;` and `)`, and let
its operators and functions do with trees only what evaluation does with them. Take some statements
and a way to put parentheses around consecutive ones. If the statements are accepted plainly, one
after the other, and in groups, then both scripts do the same in every state: they come to the same
value, or to the same fault but for where it stands in the text, and leave the same state and
output but for that. And a `;` may be added behind every script that does not end with one, which
is then read as the same tree. -/
theorem groups_and_trailing_semicolons_change_nothing {rs : List Registration}
    (hrs : ∀ r ∈ rs, r.SetsApart) (hrespects : ∀ r ∈ rs, ∀ L : Likeness, r.Respects L) :
    (∀ (a : Grouping) (names : String → Option String) (name name' : Option String)
      (plain grouped : Script),
      (∀ code ∈ a.statements, ∃ script,
        Script.read (.extended rs) ⟨code, names code⟩ = .ok script) →
      Script.read (.extended rs) ⟨"; ".intercalate a.statements, name⟩ = .ok plain →
      Script.read (.extended rs) ⟨a.text, name'⟩ = .ok grouped →
      ∀ (kind : Kind) (s : State),
        EndsLike (.ofSites (Regrouped (Language.extended rs).operators
            ⟨"; ".intercalate a.statements, name⟩ ⟨a.text, name'⟩)) Eq
          (plain.evaluate (evaluate (.extended rs)) kind s)
          (grouped.evaluate (evaluate (.extended rs)) kind s)) ∧
    ∀ (source : Source) (script : Script) (tokens : List Token),
      Script.read (.extended rs) source = .ok script →
      tokenize (Language.extended rs).operators source = .ok tokens →
      (∀ t ∈ tokens.getLast?, ¬ Reader.IsSemicolon t) →
      ∃ again, Script.read (.extended rs) ⟨source.code ++ ";", source.name⟩ = .ok again ∧
        script.root.Alike (fun s t => s.source = source ∧
          t = ⟨s.token, ⟨source.code ++ ";", source.name⟩⟩) again.root := by
  have hlang := Language.separates_extended hrs
  have hops := Language.setsApart_extended hrs
  refine ⟨fun a names name name' plain grouped ha hplain hgrouped kind s => ?_,
    fun source script tokens hread htokens hlast =>
      Script.read_semicolon hlang hops hread htokens hlast source.name⟩
  obtain ⟨first, rest, hstatements⟩ := List.exists_cons_of_ne_nil a.statements_ne_nil
  have hsame : a.statements = (Grouping.plain first rest).statements := by
    rw [hstatements, Grouping.statements_plain]
  have htext : "; ".intercalate a.statements = (Grouping.plain first rest).text := by
    rw [hstatements, Grouping.text_plain]
  rw [hsame] at ha
  rw [htext] at hplain ⊢
  exact endsLike_of_steps .same (Language.respects_extended fun r hr => hrespects r hr _)
    (Script.steps_alike hlang hops hsame ha hplain hgrouped) kind s

namespace Guarding

/-- The right operand, if the left one holds. -/
def guard (kind : Kind) (left right : Lazy) : Run Value := do
  if ← left.truth then right kind else return .null

def registrations : List Registration := [.operator "=>" 2 .right guard]

/-- Groups at both ends and within each other, with a `;` before a parenthesis that closes. -/
def groups : Grouping :=
  .chain
    (.parentheses (.chain (.statement "f(a) -> a * n") (.parentheses (.statement "n = 1"))))
    (.parentheses (.chain (.chain (.statement "n += 2") (.statement "n > 2 => f(n)"))
      (.parentheses (.parentheses (.statement "f(n) + ';';")))))

end Guarding

open Guarding in
/-- The operator of a host, a definition and a text that looks like a `;` change nothing. -/
theorem nested_groups_change_nothing :
    (∃ plain grouped : Script,
      Script.read (.extended registrations)
        ⟨"f(a) -> a * n; n = 1; n += 2; n > 2 => f(n); f(n) + ';';", none⟩ = .ok plain ∧
      Script.read (.extended registrations)
        ⟨"(f(a) -> a * n; (n = 1)); (n += 2; n > 2 => f(n); ((f(n) + ';';)))", none⟩ =
          .ok grouped ∧
      ∀ kind s, EndsLike (.ofSites (Regrouped (Language.extended registrations).operators
            ⟨"f(a) -> a * n; n = 1; n += 2; n > 2 => f(n); f(n) + ';';", none⟩
            ⟨"(f(a) -> a * n; (n = 1)); (n += 2; n > 2 => f(n); ((f(n) + ';';)))", none⟩)) Eq
          (plain.evaluate (evaluate (.extended registrations)) kind s)
          (grouped.evaluate (evaluate (.extended registrations)) kind s)) ∧
    ∃ script again : Script,
      Script.read (.extended registrations) ⟨"n = 1; ';'", none⟩ = .ok script ∧
      Script.read (.extended registrations) ⟨"n = 1; ';';", none⟩ = .ok again ∧
      script.root.Alike (fun s t => s.source = ⟨"n = 1; ';'", none⟩ ∧
        t = ⟨s.token, ⟨"n = 1; ';';", none⟩⟩) again.root := by
  have hread := Script.exists_of_isOk (.extended registrations)
  have hsetsApart : ∀ r ∈ registrations, r.SetsApart := by
    intro r hr
    obtain rfl := List.mem_singleton.mp hr
    exact ⟨Nat.le_refl 2, by decide, by decide⟩
  have hrespects : ∀ r ∈ registrations, ∀ L : Likeness, r.Respects L := by
    intro r hr L
    obtain rfl := List.mem_singleton.mp hr
    intro k left right hl hr
    refine (Agreeing.weave.truth hl).next fun holds => ?_
    cases holds with
    | true => exact hr k
    | false => exact .value _
  obtain ⟨hgroups, hmore⟩ := groups_and_trailing_semicolons_change_nothing hsetsApart hrespects
  constructor
  · have hstatements : ∀ code ∈ groups.statements,
        (Script.read (.extended registrations) ⟨code, none⟩).isOk = true := by
      decide +kernel
    obtain ⟨plain, hplain⟩ := hread ⟨"; ".intercalate groups.statements, none⟩
      (by decide +kernel)
    obtain ⟨grouped, hgrouped⟩ := hread ⟨groups.text, none⟩ (by decide +kernel)
    exact ⟨plain, grouped, hplain, hgrouped, hgroups groups (fun _ => none) none none plain grouped
      (fun code hcode => hread _ (hstatements code hcode)) hplain hgrouped⟩
  · obtain ⟨script, hscript⟩ := hread ⟨"n = 1; ';'", none⟩ (by decide +kernel)
    obtain ⟨tokens, _, _, htokens, _⟩ := Script.read_eq_ok_iff.mp hscript
    have hkind : (tokenize (Language.extended registrations).operators
        ⟨"n = 1; ';'", none⟩).toOption.bind (·.getLast?.map Token.kind) = some .text := by
      decide
    rw [htokens] at hkind
    have hlast : ∀ t ∈ tokens.getLast?, ¬ Reader.IsSemicolon t := by
      intro t ht hsemicolon
      simp [Except.toOption, Option.mem_def.mp ht, hsemicolon.1] at hkind
    obtain ⟨again, hagain, halike⟩ := hmore _ script tokens hscript htokens hlast
    exact ⟨script, again, hscript, hagain, halike⟩

end TickScript
