-- How trees grow: what operands are joined to, what a call comes to, and what a script is read as.
import TickScript.Proofs.Reading

namespace TickScript.Reader

variable {g : Setting} {left : Parsed} {name : Token}

theorem definition_ok {head body tree : Expr} {arrow : Token}
    (h : definition g head body arrow = .ok tree) :
    ∃ name args params site, head = .call name args site ∧ g.lang.function? name = none ∧
      paramNames? args = some params ∧ tree = .define name params body site := by
  unfold definition at h
  split at h
  · rename_i name args site
    split at h
    · cases h
    · rename_i hfunction
      split at h
      · rename_i params hparams
        cases h
        exact ⟨name, args, params, site, rfl, by simpa using hfunction, hparams, rfl⟩
      · cases h
  · cases h

/-- What two operands are joined to, by the role of the operator. -/
inductive Joins (g : Setting) (t : Token) (left right : Parsed) : BinaryRole → Parsed → Prop
  | sequences : Joins g t left right .sequences (left.andThen right)
  | evaluates (apply) : Joins g t left right (.evaluates apply)
      ⟨.binary t.surface left.tree right.tree (g.site t), max left.height right.height + 1⟩
  | assigns (apply) : Joins g t left right (.assigns apply)
      ⟨.binary t.surface (left.tree.toTarget g.lang) right.tree (g.site t),
        max left.height right.height + 1⟩
  | defines {name args params site} (hhead : left.tree = .call name args site)
      (hfunction : g.lang.function? name = none) (hparams : paramNames? args = some params) :
      Joins g t left right .defines
        ⟨.define name params right.tree site, max left.height right.height + 1⟩

theorem combine_ok {op : BinaryOperator} {t : Token} {right p : Parsed}
    (h : combine g op t left right = .ok p) :
    max left.height right.height + 1 ≤ maxNesting ∧ Joins g t left right op.role p := by
  unfold combine at h
  dsimp only at h
  split at h
  · cases h
  rename_i hheight
  refine ⟨Nat.le_of_not_lt hheight, ?_⟩
  cases hrole : op.role with
  | sequences =>
    rw [hrole] at h
    cases h
    exact .sequences
  | evaluates apply =>
    rw [hrole] at h
    cases h
    exact .evaluates apply
  | assigns apply =>
    rw [hrole] at h
    cases h
    exact .assigns apply
  | defines =>
    rw [hrole] at h
    obtain ⟨tree, htree, h⟩ := of_bind_ok h
    cases h
    obtain ⟨name, args, params, site, hhead, hfunction, hparams, rfl⟩ := definition_ok htree
    exact .defines hhead hfunction hparams

theorem combine_of_joins {op : BinaryOperator} {t : Token} {right p : Parsed}
    (hheight : max left.height right.height + 1 ≤ maxNesting) (h : Joins g t left right op.role p) :
    combine g op t left right = .ok p := by
  unfold combine
  dsimp only
  rw [if_neg (Nat.not_lt.mpr hheight)]
  generalize op.role = role at h
  cases h with
  | sequences => rfl
  | evaluates apply => rfl
  | assigns apply => rfl
  | defines hhead hfunction hparams =>
    simp only [definition, hhead, hfunction, hparams, Option.isSome_none, Bool.false_eq_true,
      ↓reduceIte]
    rfl

theorem finishCall_ok {args : List Expr} {height : Nat} {p : Parsed}
    (h : finishCall g name args height = .ok p) :
    (∀ f, g.lang.function? name.surface = some f → f.arity.accepts args.length = true) ∧
      p = ⟨.call name.surface args (g.site name), height + 1⟩ := by
  unfold finishCall at h
  split at h
  · rename_i f hf
    split at h
    · rename_i haccepts
      cases h
      refine ⟨fun f' hf' => ?_, rfl⟩
      rw [hf] at hf'
      cases hf'
      exact haccepts
    · cases h
  · rename_i hnone
    cases h
    refine ⟨fun f hf => ?_, rfl⟩
    rw [hnone] at hf
    cases hf

theorem finishCall_of_accepts {args : List Expr} (height : Nat)
    (h : ∀ f, g.lang.function? name.surface = some f → f.arity.accepts args.length = true) :
    finishCall g name args height = .ok ⟨.call name.surface args (g.site name), height + 1⟩ := by
  unfold finishCall
  rcases hf : g.lang.function? name.surface with _ | f
  · rfl
  · exact if_pos (h f hf)

/-- How high the highest of some trees is taken to be. -/
def highest (args : List Parsed) : Nat := args.foldl (fun height arg => max height arg.height) 0

theorem highest_concat (args : List Parsed) (arg : Parsed) :
    highest (args ++ [arg]) = max (highest args) arg.height := by
  simp [highest]

end TickScript.Reader

/-- What a script is read as, by its tokens. -/
theorem TickScript.Script.read_eq_ok_iff {lang : Language} {source : Source} {script : Script} :
    Script.read lang source = .ok script ↔
      ∃ tokens last p, tokenize lang.operators source = .ok tokens ∧
        tokens.getLast? = some last ∧
        Reader.expression ⟨lang, source, last⟩ (2 * tokens.length + 2) 0 0 tokens = .ok (p, []) ∧
        script = ⟨p.tree, source⟩ := by
  constructor
  · intro h
    unfold Script.read at h
    obtain ⟨tokens, htokens, h⟩ := Reader.of_bind_ok h
    rcases hlast : tokens.getLast? with _ | last
    · rw [hlast] at h
      cases h
    rw [hlast] at h
    obtain ⟨⟨p, rest⟩, hp, h⟩ := Reader.of_bind_ok h
    rcases rest with _ | ⟨t, rest⟩
    · cases h
      exact ⟨tokens, last, p, htokens, hlast, hp, rfl⟩
    · cases h
  · rintro ⟨tokens, last, p, htokens, hlast, hp, rfl⟩
    unfold Script.read
    rw [htokens]
    simp only [bind, Except.bind, hlast, hp]
    rfl

theorem TickScript.Script.exists_of_isOk (lang : Language) (source : Source)
    (h : (Script.read lang source).isOk = true) :
    ∃ script, Script.read lang source = .ok script := by
  cases hscript : Script.read lang source with
  | ok script => exact ⟨script, rfl⟩
  | error f =>
    rw [hscript] at h
    cases h
