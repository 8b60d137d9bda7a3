-- How high a tree can be that is read. Where operands are joined the tree is within the limit; a
-- unary operator or a call on top of that adds a level that nobody looks at.
import TickScript.Proofs.ReadingBack
import TickScript.Proofs.Tables

namespace TickScript

variable {most n : Nat} {t : Token} {p : Parsed} {xs : List Lexeme}

/-! ## Joins within a limit -/

mutual

/-- No binary operator, definition or sequence in the tree has more levels than this. -/
def Expr.JoinsWithin (most : Nat) : Expr → Prop
  | .number _ | .text _ | .var .. => True
  | .unary _ operand _ => operand.JoinsWithin most
  | .binary _ left right _ =>
    max left.height right.height + 1 ≤ most ∧ left.JoinsWithin most ∧ right.JoinsWithin most
  | .call _ args _ => Expr.AllJoinWithin most args
  | .define _ _ body _ => body.height + 1 ≤ most ∧ body.JoinsWithin most
  | .sequence items => Expr.maxHeight items + 1 ≤ most ∧ Expr.AllJoinWithin most items

/-- The same for each of some trees. -/
def Expr.AllJoinWithin (most : Nat) : List Expr → Prop
  | [] => True
  | e :: rest => e.JoinsWithin most ∧ Expr.AllJoinWithin most rest

end

theorem Expr.allJoinWithin_iff {es : List Expr} :
    Expr.AllJoinWithin most es ↔ ∀ e ∈ es, e.JoinsWithin most := by
  induction es with
  | nil => simp [Expr.AllJoinWithin]
  | cons e rest ih => simp [Expr.AllJoinWithin, ih]

mutual

theorem Expr.joinsWithin_toTarget (lang : Language) {most : Nat} :
    ∀ e : Expr, e.JoinsWithin most → (e.toTarget lang).JoinsWithin most
  | .var .. => by simp [Expr.toTarget, Expr.JoinsWithin]
  | .call name args site => by
    intro h
    unfold Expr.toTarget
    split
    · exact Expr.allJoinWithin_toTargets lang args h
    · exact h
  | .number _ | .text _ | .unary .. | .binary .. | .define .. | .sequence _ => by
    intro h
    simpa only [Expr.toTarget] using h

theorem Expr.allJoinWithin_toTargets (lang : Language) {most : Nat} :
    ∀ es : List Expr, Expr.AllJoinWithin most es →
      Expr.AllJoinWithin most (Expr.toTargets lang es)
  | [] => fun h => h
  | e :: rest => fun h =>
    ⟨Expr.joinsWithin_toTarget lang e h.1, Expr.allJoinWithin_toTargets lang rest h.2⟩

end

namespace Reader

variable {g : Setting}

/-- What two trees are joined to is within the limit if it is not too high itself. -/
theorem joinsWithin_joins {role : BinaryRole} {left right : Parsed}
    (hl : left.tree.JoinsWithin most) (hr : right.tree.JoinsWithin most)
    (h : Joins g t left right role p) (hp : p.tree.height ≤ most) : p.tree.JoinsWithin most := by
  cases h with
  | sequences =>
    unfold Parsed.andThen at hp ⊢
    split
    · rename_i items htree
      rw [htree] at hl
      simp only [htree, Expr.height] at hp
      refine ⟨hp, Expr.allJoinWithin_iff.mpr fun e he => ?_⟩
      rcases List.mem_append.mp he with he | he
      · exact Expr.allJoinWithin_iff.mp hl.2 e he
      · rwa [List.mem_singleton.mp he]
    · rename_i hsequence
      split at hp
      · rename_i items htree
        exact absurd htree (hsequence items)
      · exact ⟨hp, hl, hr, trivial⟩
  | evaluates apply => exact ⟨hp, hl, hr⟩
  | assigns apply => exact ⟨hp, Expr.joinsWithin_toTarget g.lang _ hl, hr⟩
  | defines hhead hfunction hparams => exact ⟨hp, hr⟩

theorem height_joins {role : BinaryRole} {left right : Parsed} (h : Joins g t left right role p) :
    p.height ≤ max left.height right.height + 1 := by
  cases h with
  | sequences =>
    unfold Parsed.andThen
    split <;> dsimp only <;> omega
  | evaluates apply => exact Nat.le_refl _
  | assigns apply => exact Nat.le_refl _
  | defines hhead hfunction hparams => exact Nat.le_refl _

theorem highest_lt {args : List Parsed} (hmost : 0 < most) (h : ∀ arg ∈ args, arg.height < most) :
    highest args < most := by
  induction args using List.reverseRecOn with
  | nil => exact hmost
  | append_singleton args arg ih =>
    have hargs := ih fun a ha => h a (by simp [ha])
    have harg := h arg (by simp)
    rw [highest_concat]
    omega

/-! ## Levels -/

/-- Below the depth that a tree is read at, so many levels are left for it. Joins are within
the limit of their own. -/
structure Nested (depth : Nat) (p : Parsed) : Prop where
  shallow : depth < maxNesting
  levels : p.height + depth < 2 * maxNesting
  joins : p.tree.JoinsWithin maxNesting

theorem nested_of_single {depth : Nat} (hdepth : depth + 1 ≤ maxNesting) (h : single g t = .ok p) :
    Nested depth p := by
  have hatom : p.height = 1 ∧ p.tree.JoinsWithin maxNesting := by
    unfold single at h
    split at h
    · split at h <;> cases h
      exact ⟨rfl, trivial⟩
    · split at h <;> cases h
      exact ⟨rfl, trivial⟩
    · cases h
      exact ⟨rfl, trivial⟩
    · cases h
      exact ⟨rfl, trivial⟩
    · cases h
  exact ⟨hdepth, by omega, hatom.2⟩

theorem Spans.nested {depth : Nat} {taken : List Token} (h : Spans g depth taken p) :
    Nested depth p := by
  induction h with
  | single hdepth h => exact nested_of_single hdepth h
  | parentheses hdepth _ _ _ ih =>
    have hlevels := ih.levels
    exact ⟨hdepth, by omega, ih.joins⟩
  | unary hdepth _ _ _ ih =>
    have hlevels := ih.levels
    exact ⟨hdepth, by dsimp only; omega, ih.joins⟩
  | @call depth _ _ _ args _ hdepth _ _ _ _ _ ih =>
    have hlevels : highest (args.map Prod.snd) < 2 * maxNesting - (depth + 1) :=
      highest_lt (by omega) (List.forall_mem_map.mpr fun arg harg => by
        have := (ih arg harg).levels
        omega)
    refine ⟨hdepth, by dsimp only; omega, Expr.allJoinWithin_iff.mpr fun e he => ?_⟩
    obtain ⟨arg, harg, rfl⟩ := List.mem_map.mp he
    exact (ih arg harg).joins
  | @join _ _ _ _ _ _ _ p hleft _ _ hright hheight h ihl ihr =>
    have hp := height_joins h
    have hbounds := p.tree.counted_bounds
    have hshallow := ihl.shallow
    have hcounted : p.height = p.tree.counted := counted_joins hleft.counted hright.counted h
    exact ⟨hshallow, by omega, joinsWithin_joins ihl.joins ihr.joins h (by omega)⟩
  | trailing _ _ _ _ ih => exact ih

end Reader

/-! ## Tall scripts -/

/-- One more summand. -/
def summand : List Lexeme := ⟨.operator, "+"⟩ :: inParens [⟨.text, "x"⟩]

/-- A text and `n` summands more. -/
def sumOf (n : Nat) : List Lexeme := ⟨.text, "x"⟩ :: (List.replicate n summand).flatten

/-- So many calls around something. -/
def inCalls : Nat → List Lexeme → List Lexeme
  | 0, xs => xs
  | k + 1, xs => headed "abs" [inCalls k xs]

namespace Reader

variable {g : Setting}

/-- The lexemes are read as a tree of this height, if so many levels more are free. -/
def ReadsTall (g : Setting) (xs : List Lexeme) (below height : Nat) : Prop :=
  ∀ ts more fuel depth, ts.map Token.lexeme = xs → Ends g 0 more → 2 * ts.length ≤ fuel →
    depth + below ≤ maxNesting →
    ∃ p, expression g fuel depth 0 (ts ++ more) = .ok (p, more) ∧ p.tree.height = height

theorem eq_text_of_regains {s : String} (h : p.Regains g.lang false (.text s)) :
    p.tree = .text s ∧ p.height = 1 := by
  have hsame : p.tree.forget = .text s := h.same
  have hcounted : p.height = p.tree.counted := h.counted
  cases htree : p.tree with
  | text other =>
    rw [htree] at hsame hcounted
    cases hsame
    exact ⟨rfl, hcounted⟩
  | _ =>
    rw [htree] at hsame
    cases hsame

/-- Every summand adds a level, as long as the limit is not reached. -/
theorem climb_summands {op : BinaryOperator} {apply : Kind → Lazy → Lazy → Run Value}
    (hop : g.lang.binary? "+" = some op) (hrole : op.role = .evaluates apply)
    (hside : op.side = .left) {ts : List Token}
    (hts : ts.map Token.lexeme = (List.replicate n summand).flatten) {more : List Token}
    (hmore : Ends g 0 more) (fuel depth : Nat) (hfuel : 2 * ts.length + 1 ≤ fuel)
    (hdepth : depth + 2 ≤ maxNesting) (left : Parsed) (hleft : left.height = left.tree.height)
    (hheight : left.height + n ≤ maxNesting) :
    ∃ p, climb g fuel depth 0 left (ts ++ more) = .ok (p, more) ∧
      p.tree.height = left.tree.height + n := by
  obtain ⟨fuel, rfl⟩ : ∃ f, fuel = f + 1 := ⟨fuel - 1, by omega⟩
  induction n generalizing ts fuel left with
  | zero =>
    cases List.map_eq_nil_iff.mp hts
    exact ⟨left, climb_of_ends hmore fuel depth left, rfl⟩
  | succ n ih =>
    rw [List.replicate_succ, List.flatten_cons, summand, List.cons_append] at hts
    obtain ⟨t, rest, rfl, ht, hrest⟩ := List.map_eq_cons_iff.mp hts
    obtain ⟨first, others, rfl, hfirst, hothers⟩ := List.map_eq_append_iff.mp hrest
    obtain ⟨hkind, hsurface⟩ := Lexeme.mk.inj ht
    have hop' := hsurface ▸ hop
    have hends : Ends g (rightLeast op) (others ++ more) := by
      rcases n with _ | n
      · cases List.map_eq_nil_iff.mp hothers
        exact hmore.mono (Nat.zero_le _)
      · obtain ⟨u, tail, rfl, hu, -⟩ := List.map_eq_cons_iff.mp hothers
        obtain ⟨_, hu⟩ := Lexeme.mk.inj hu
        intro v hv _
        cases Option.some.inj hv
        refine ⟨op, hu ▸ hop, ?_⟩
        rw [rightLeast, hside]
        exact Nat.lt_succ_self _
    have hlength := two_le_length hfirst
    have hone := left.tree.one_le_height
    simp only [List.length_cons, List.length_append] at hfuel
    obtain ⟨fuel, rfl⟩ : ∃ f, fuel = f + 1 := ⟨fuel - 1, by omega⟩
    obtain ⟨q, hq, hclimb⟩ := climb_inParens (readsBack_text "x" false) hkind hop' hfirst
      (fuel + 1) depth (by omega) hdepth hends
    obtain ⟨hqtree, hqheight⟩ := eq_text_of_regains hq
    have hjoins : Joins g t left q op.role ⟨.binary t.surface left.tree q.tree (g.site t),
        max left.height q.height + 1⟩ := hrole ▸ .evaluates apply
    have htall : max left.height q.height + 1 = left.tree.height + 1 := by omega
    have hbinary : (Expr.binary t.surface left.tree q.tree (g.site t)).height =
        left.tree.height + 1 := by
      rw [Expr.height, hqtree, Expr.height]
      omega
    obtain ⟨p, hp, hpheight⟩ := ih hothers ⟨.binary t.surface left.tree q.tree (g.site t),
      max left.height q.height + 1⟩ (htall.trans hbinary.symm) (by dsimp only; omega) fuel
      (by omega)
    refine ⟨p, ?_, ?_⟩
    · rw [List.cons_append, List.append_assoc, hclimb left _ (by omega) hjoins]
      exact hp
    · rw [hpheight, hbinary]
      omega

theorem readsTall_sumOf {op : BinaryOperator} {apply : Kind → Lazy → Lazy → Run Value}
    (hop : g.lang.binary? "+" = some op) (hrole : op.role = .evaluates apply)
    (hside : op.side = .left) (hn : n + 1 ≤ maxNesting) : ReadsTall g (sumOf n) 2 (n + 1) := by
  intro ts more fuel depth hts hmore hfuel hdepth
  obtain ⟨t, rest, rfl, ht, hrest⟩ := List.map_eq_cons_iff.mp hts
  obtain ⟨hkind, hsurface⟩ := Lexeme.mk.inj ht
  rw [List.length_cons] at hfuel
  obtain ⟨fuel, rfl⟩ : ∃ f, fuel = f + 2 := ⟨fuel - 2, by omega⟩
  have hsingle : single g t = .ok (.leaf (.text "x")) := by
    simp only [single, hkind, hsurface]
  obtain ⟨p, hp, hpheight⟩ := climb_summands hop hrole hside hrest hmore (fuel + 1) depth
    (by omega) hdepth (.leaf (.text "x")) rfl (by rw [Nat.add_comm]; exact hn)
  refine ⟨p, ?_, ?_⟩
  · rw [List.cons_append, expression_succ, operand_of_single fuel _ (by omega)
      (by rw [hkind]; decide) (by rw [hkind]; decide) (by rw [hkind]; decide), hsingle]
    exact hp
  · rw [hpheight, Parsed.leaf, Expr.height]
    omega

/-- A call adds a level that no limit is asked for. -/
theorem readsTall_headed {name : String} {f : Native} (hf : g.lang.function? name = some f)
    (haccepts : f.arity.accepts 1 = true) {below height : Nat} (h : ReadsTall g xs below height) :
    ReadsTall g (headed name [xs]) (below + 1) (height + 1) := by
  intro ts more fuel depth hts hmore hfuel hdepth
  obtain ⟨t, rest, rfl, ht, hrest⟩ := List.map_eq_cons_iff.mp hts
  obtain ⟨hkind, rfl⟩ := Lexeme.mk.inj ht
  obtain ⟨v, inner, u, rfl, -, hu, hinner⟩ := of_map_inParens hrest
  have hinner : inner.map Token.lexeme = xs := by simpa [joined] using hinner
  simp only [List.length_cons, List.length_append, List.length_nil] at hfuel
  obtain ⟨fuel, rfl⟩ : ∃ f, fuel = f + 3 := ⟨fuel - 3, by omega⟩
  have hends : Ends g 0 (u :: more) := ends_of_kind (by rw [hu]; decide) 0 more
  obtain ⟨p, hread, hp⟩ := h inner _ fuel (depth + 1) hinner hends (by omega) (by omega)
  have hfinish : finishCall g t [p.tree] p.height =
      .ok ⟨.call t.surface [p.tree] (g.site t), p.height + 1⟩ := by
    refine finishCall_of_accepts _ fun other hother => ?_
    rw [hf] at hother
    cases hother
    exact haccepts
  have hargs : arguments g (fuel + 1) (depth + 1) t [] 0 (inner ++ u :: more) =
      .ok (⟨.call t.surface [p.tree] (g.site t), p.height + 1⟩, more) := by
    rw [arguments_succ, hread]
    simp [afterArgument, bind, Except.bind, hu, hfinish]
  refine ⟨⟨.call t.surface [p.tree] (g.site t), p.height + 1⟩, ?_, ?_⟩
  · rw [List.cons_append, expression_succ, operand_of_arguments (by omega) hkind hargs]
    exact climb_of_ends hmore (fuel + 1) depth _
  · simp [Expr.height, Expr.maxHeight, hp]

theorem readsTall_inCalls {f : Native} (hf : g.lang.function? "abs" = some f)
    (haccepts : f.arity.accepts 1 = true) {below height : Nat} (h : ReadsTall g xs below height)
    (k : Nat) : ReadsTall g (inCalls k xs) (below + k) (height + k) := by
  induction k with
  | zero => exact h
  | succ k ih => exact readsTall_headed hf haccepts ih

end Reader

theorem whole_sumOf (n : Nat) : Whole (sumOf n) := by
  have hsummands : ∀ {kind : TokenKind} {more : List Lexeme}, kind = .text ∨ kind = .closing →
      EndsTree more → Coherent (some kind) ((List.replicate n summand).flatten ++ more) := by
    induction n with
    | zero =>
      rintro kind more (rfl | rfl) hmore
      · exact hmore .text rfl nofun
      · exact hmore .closing rfl nofun
    | succ n ih =>
      intro kind more hkind hmore
      rw [List.replicate_succ, List.flatten_cons, List.append_assoc, summand, List.cons_append]
      refine ⟨?_, ?_⟩
      · rcases hkind with rfl | rfl <;> rfl
      · exact (whole_single rfl rfl nofun : Whole [⟨.text, "x"⟩]).inParens rfl
          (ih (Or.inr rfl) hmore)
  intro previous more hprevious hmore
  exact ⟨TokenKind.precedes_of_wantsOperand hprevious (Or.inl rfl), hsummands (Or.inl rfl) hmore⟩

theorem whole_inCalls (h : Whole xs) (k : Nat) : Whole (inCalls k xs) := by
  induction k with
  | zero => exact h
  | succ k ih =>
    intro previous more hprevious hmore
    exact coherent_headed (by simpa using ih) hprevious (hmore .closing rfl nofun)

theorem legal_sumOf (n : Nat) : ∀ x ∈ sumOf n, x.Legal standardSpellings := by
  have htext : Lexeme.Legal standardSpellings ⟨.text, "x"⟩ := .text (by decide)
  have hplus : Lexeme.Legal standardSpellings ⟨.operator, "+"⟩ :=
    .operator (by decide)
      (.mk (c := '+') (by decide) ⟨by decide, by decide, by decide, by decide, by decide⟩)
  refine List.forall_mem_cons.mpr ⟨htext, fun x hx => ?_⟩
  obtain ⟨xs, hxs, hx⟩ := List.mem_flatten.mp hx
  rw [List.eq_of_mem_replicate hxs] at hx
  rcases List.mem_cons.mp hx with rfl | hx
  · exact hplus
  · exact legal_inParens (by simpa using htext) x hx

theorem legal_inCalls (h : ∀ x ∈ xs, x.Legal standardSpellings) (k : Nat) :
    ∀ x ∈ inCalls k xs, x.Legal standardSpellings := by
  have hname : Lexeme.Legal standardSpellings ⟨.call, "abs"⟩ :=
    .call (.mk (c := 'a') (by decide) (List.all_eq_true.mp (by decide)))
  induction k with
  | zero => exact h
  | succ k ih => exact legal_headed hname (by simpa using ih)

/-- The text of a sum in calls. -/
def tallCode (n k : Nat) : String :=
  String.ofList ((inCalls k (sumOf n)).flatMap Lexeme.spelled)

theorem written_tallCode (n k : Nat) :
    Written standardSpellings (inCalls k (sumOf n)) (tallCode n k).toList := by
  rw [tallCode, String.toList_ofList]
  exact (written_flatMap _).of_plain plain_standardSpellings (legal_inCalls (legal_sumOf n) k)
    (whole_inCalls (whole_sumOf n) k).coherent

/-- A sum may have as many levels as the limit allows, and calls around it add to them. -/
theorem Script.read_tallCode {k : Nat} (hn : n + 1 ≤ maxNesting) (hk : k + 2 ≤ maxNesting) :
    ∃ script, Script.read Language.standard ⟨tallCode n k, none⟩ = .ok script ∧
      script.root.height = n + 1 + k := by
  refine Script.read_of_lexemes (P := fun e => e.height = n + 1 + k) Language.knows_standard
    (written_tallCode n k) (legal_inCalls (legal_sumOf n) k)
    (whole_inCalls (whole_sumOf n) k).coherent fun last ts hts => ?_
  have htall : Reader.ReadsTall ⟨Language.standard, ⟨tallCode n k, none⟩, last⟩
      (inCalls k (sumOf n)) (2 + k) (n + 1 + k) :=
    Reader.readsTall_inCalls rfl rfl (Reader.readsTall_sumOf rfl rfl rfl hn) k
  exact htall ts [] _ 0 hts nofun (by omega) (by omega)

/-- In every script that is read, whatever the language, each binary operator, definition and
sequence has at most `maxNesting` levels. Unary operators and calls on top of them may add at
most as many again, less one. -/
theorem joins_are_capped (lang : Language) (source : Source) {script : Script}
    (h : Script.read lang source = .ok script) :
    script.root.JoinsWithin maxNesting ∧ script.root.height < 2 * maxNesting := by
  obtain ⟨tokens, last, p, _, _, hp, rfl⟩ := Script.read_eq_ok_iff.mp h
  obtain ⟨_, _, hspans, _⟩ := (Reader.takes _ _).expression hp
  have hcounted : p.height = p.tree.counted := hspans.counted
  have hbounds := p.tree.counted_bounds
  have hlevels := hspans.nested.levels
  exact ⟨hspans.nested.joins, by dsimp only; omega⟩

/-- A sum of 200 texts is as high as joins may be; with 198 calls around it, it is read as well. -/
theorem a_script_exceeds_the_limit :
    ∃ script, Script.read Language.standard ⟨tallCode 199 198, none⟩ = .ok script ∧
      script.root.height = 398 ∧ maxNesting < script.root.height ∧
      script.root.JoinsWithin maxNesting ∧ script.root.height < 2 * maxNesting := by
  obtain ⟨script, hread, hheight⟩ := Script.read_tallCode (n := 199) (k := 198) (by decide)
    (by decide)
  obtain ⟨hjoins, hmost⟩ := joins_are_capped Language.standard ⟨tallCode 199 198, none⟩ hread
  exact ⟨script, hread, hheight, by rw [hheight]; decide, hjoins, hmost⟩

end TickScript
