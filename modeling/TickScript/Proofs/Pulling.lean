-- Pulling at a lexer. It gives tokens, then perhaps a fault, and then nothing more, however often
-- it is pulled at; and to ask whether there is more changes nothing in that.
import TickScript.Proofs.Tokens

namespace TickScript

open TickScript.Text

/-- The fault of a token that may not follow the one before it. -/
def clashFault (source : Source) (previous t : Token) : Fault :=
  .ofSite (.notAllowedAfter t.surface (t.place.pos + 1) previous.surface (previous.place.pos + 1))
    ⟨t, source⟩

namespace Lexer

variable {ops : OperatorTable} {source : Source} {l : Lexer}

/-! ## One pull -/

/-- The token that is shown where no piece could be read. -/
def tokenOfMisread (l : Lexer) (bad : Misread) : Token :=
  { kind := bad.kind, surface := String.ofList bad.surface, place := l.skipBlanks.place }

/-- The lexer after a fault. -/
def fail (l : Lexer) : Lexer := { l.skipBlanks with failed := true }

/-- All that a pull can be: what it gives and what it leaves. -/
inductive Pulls (ops : OperatorTable) (source : Source) (l : Lexer) : Pull → Lexer → Prop
  | afterFault (hfailed : l.failed = true) : Pulls ops source l .finished l
  | finished (hfailed : l.failed = false) (hrest : l.skipBlanks.rest = []) :
      Pulls ops source l .finished l.skipBlanks
  | misread {c : Char} {rest : List Char} {bad : Misread} (hfailed : l.failed = false)
      (hrest : l.skipBlanks.rest = c :: rest)
      (hpiece : readPiece ops l.operatorKind c rest = .error bad) :
      Pulls ops source l (.fault (.ofSite bad.cause ⟨l.tokenOfMisread bad, source⟩)) l.fail
  | clash {c : Char} {rest : List Char} {p : Piece} {q : Token} (hfailed : l.failed = false)
      (hrest : l.skipBlanks.rest = c :: rest)
      (hpiece : readPiece ops l.operatorKind c rest = .ok p) (hprevious : l.previous = some q)
      (hstrict : l.strict = true) (hclash : q.kind.clashes p.kind = true) :
      Pulls ops source l (.fault (clashFault source q (l.tokenOf p))) l.fail
  | token {c : Char} {rest : List Char} {p : Piece} (hfailed : l.failed = false)
      (hrest : l.skipBlanks.rest = c :: rest)
      (hpiece : readPiece ops l.operatorKind c rest = .ok p)
      (hclash : l.strict = true → ∀ q ∈ l.previous, q.kind.clashes p.kind = false) :
      Pulls ops source l (.token (l.tokenOf p)) (l.past p)

theorem clash?_eq_none (l : Lexer) {t : Token}
    (h : l.strict = true → ∀ q ∈ l.previous, q.kind.clashes t.kind = false) :
    l.clash? t = none := by
  unfold clash?
  rcases hprevious : l.previous with _ | q
  · rfl
  · cases hstrict : l.strict with
    | false => rfl
    | true => simp [h hstrict q hprevious]

theorem next_of_clash {c : Char} {rest : List Char} {p : Piece} {q : Token}
    (hfailed : l.failed = false) (hrest : l.skipBlanks.rest = c :: rest)
    (hpiece : readPiece ops l.operatorKind c rest = .ok p) (hprevious : l.previous = some q)
    (hstrict : l.strict = true) (hclash : q.kind.clashes p.kind = true) :
    l.next ops source = (.fault (clashFault source q (l.tokenOf p)), l.fail) := by
  have hkind : l.skipBlanks.operatorKind = l.operatorKind := rfl
  have hcause : l.skipBlanks.clash? (l.tokenOf p) =
      some (.notAllowedAfter (l.tokenOf p).surface ((l.tokenOf p).place.pos + 1) q.surface
        (q.place.pos + 1)) := by
    have hprevious' : l.skipBlanks.previous = some q := hprevious
    have hstrict' : l.skipBlanks.strict = true := hstrict
    have hclash' : q.kind.clashes (l.tokenOf p).kind = true := hclash
    simp only [clash?, hprevious', hstrict', hclash', Bool.and_self, ↓reduceIte]
  unfold tokenOf at hcause
  unfold next
  simp only [hfailed, Bool.false_eq_true, ↓reduceIte, hrest, hkind, hpiece]
  rw [hcause, ← hrest]
  rfl

/-- What can be is what is. -/
theorem Pulls.next_eq {x : Pull} {after : Lexer} (h : Pulls ops source l x after) :
    l.next ops source = (x, after) := by
  have hkind : l.skipBlanks.operatorKind = l.operatorKind := rfl
  cases h with
  | afterFault hfailed =>
    unfold next
    simp only [hfailed, ↓reduceIte]
  | finished hfailed hrest =>
    unfold next
    simp only [hfailed, Bool.false_eq_true, ↓reduceIte, hrest]
  | misread hfailed hrest hpiece =>
    unfold next
    simp only [hfailed, Bool.false_eq_true, ↓reduceIte, hrest, hkind, hpiece]
    rw [← hrest]
    rfl
  | clash hfailed hrest hpiece hprevious hstrict hclash =>
    exact next_of_clash hfailed hrest hpiece hprevious hstrict hclash
  | token hfailed hrest hpiece hclash =>
    exact next_of_piece hfailed hrest hpiece (l.clash?_eq_none hclash)

theorem exists_pulls (ops : OperatorTable) (source : Source) (l : Lexer) :
    ∃ x after, Pulls ops source l x after := by
  cases hfailed : l.failed with
  | true => exact ⟨_, _, .afterFault hfailed⟩
  | false =>
    rcases hrest : l.skipBlanks.rest with _ | ⟨c, rest⟩
    · exact ⟨_, _, .finished hfailed hrest⟩
    cases hpiece : readPiece ops l.operatorKind c rest with
    | error bad => exact ⟨_, _, .misread hfailed hrest hpiece⟩
    | ok p =>
      by_cases hclash : l.strict = true → ∀ q ∈ l.previous, q.kind.clashes p.kind = false
      · exact ⟨_, _, .token hfailed hrest hpiece hclash⟩
      · push Not at hclash
        obtain ⟨hstrict, q, hprevious, hclash⟩ := hclash
        rw [ne_eq, Bool.not_eq_false] at hclash
        exact ⟨_, _, .clash hfailed hrest hpiece hprevious hstrict hclash⟩

theorem pulls_of_next {x : Pull} {after : Lexer} (h : l.next ops source = (x, after)) :
    Pulls ops source l x after := by
  obtain ⟨y, m, hpulls⟩ := exists_pulls ops source l
  rw [hpulls.next_eq] at h
  cases h
  exact hpulls

/-! ## Many pulls -/

/-- The lexer after so many pulls. -/
def afterPulls (ops : OperatorTable) (source : Source) : Nat → Lexer → Lexer
  | 0, l => l
  | n + 1, l => afterPulls ops source n (l.next ops source).2

/-- What the lexer gives when it is pulled at once more after so many pulls. -/
def pulled (ops : OperatorTable) (source : Source) (l : Lexer) (n : Nat) : Pull :=
  ((l.afterPulls ops source n).next ops source).1

/-- What every pull keeps is kept by all of them. -/
theorem afterPulls_induct {P : Lexer → Prop} (hstep : ∀ l, P l → P (l.next ops source).2)
    (h : P l) (n : Nat) : P (l.afterPulls ops source n) := by
  induction n generalizing l with
  | zero => exact h
  | succ n ih => exact ih (hstep l h)

/-- There is nothing more to read. -/
def Spent (l : Lexer) : Prop := l.failed = true ∨ l.skipBlanks.rest = []

theorem skipBlanks_skipBlanks (l : Lexer) : l.skipBlanks.skipBlanks = l.skipBlanks := by
  have hblanks : (l.rest.dropWhile isBlank).dropWhile isBlank = l.rest.dropWhile isBlank ∧
      (l.rest.dropWhile isBlank).takeWhile isBlank = [] := by
    have hhead := List.head?_dropWhile_not isBlank l.rest
    rcases hrest : l.rest.dropWhile isBlank with _ | ⟨c, rest⟩
    · exact ⟨rfl, rfl⟩
    · have hc : isBlank c = false := by simpa [hrest] using hhead
      simp [hc]
  simp only [skipBlanks, hblanks.1, hblanks.2]
  rfl

theorem spent_skipBlanks : l.skipBlanks.Spent ↔ l.Spent := by
  unfold Spent
  rw [skipBlanks_skipBlanks]
  rfl

/-- A pull gives nothing exactly if there is nothing more. -/
theorem next_eq_finished_iff : (l.next ops source).1 = .finished ↔ l.Spent := by
  obtain ⟨x, after, h⟩ := exists_pulls ops source l
  rw [h.next_eq]
  cases h with
  | afterFault hfailed => simp [Spent, hfailed]
  | finished hfailed hrest => simp [Spent, hrest]
  | misread hfailed hrest hpiece => simp [Spent, hfailed, hrest]
  | clash hfailed hrest hpiece hprevious hstrict hclash => simp [Spent, hfailed, hrest]
  | token hfailed hrest hpiece hclash => simp [Spent, hfailed, hrest]

/-- A pull that gives no token is the last that gives anything. -/
theorem spent_next (h : ∀ t, (l.next ops source).1 ≠ .token t) :
    (l.next ops source).2.Spent := by
  obtain ⟨x, after, hpulls⟩ := exists_pulls ops source l
  rw [hpulls.next_eq] at h ⊢
  cases hpulls with
  | afterFault hfailed => exact Or.inl hfailed
  | finished hfailed hrest => exact spent_skipBlanks.mpr (Or.inr hrest)
  | misread => exact Or.inl rfl
  | clash => exact Or.inl rfl
  | token => exact absurd rfl (h _)

theorem Spent.next (h : l.Spent) : (l.next ops source).2.Spent := by
  refine spent_next fun t ht => ?_
  rw [next_eq_finished_iff.mpr h] at ht
  cases ht

theorem pulled_of_spent (h : l.Spent) (n : Nat) : l.pulled ops source n = .finished :=
  next_eq_finished_iff.mpr (afterPulls_induct (fun _ => Spent.next) h n)

/-- Pulling at the lexer gives these tokens, then the fault, if there is one, and then nothing,
however often. -/
def Streams (ops : OperatorTable) (source : Source) (l : Lexer) (tokens : List Token)
    (ending : Option Fault) : Prop :=
  ∀ n, l.pulled ops source n =
    ((tokens.map Pull.token ++ ending.toList.map Pull.fault)[n]?).getD .finished

theorem Emits.streams {tokens : List Token} {ending : Option Fault}
    (h : Emits ops source l tokens ending) : Streams ops source l tokens ending := by
  induction h with
  | @finished l after h =>
    have hspent : l.Spent := next_eq_finished_iff.mp (by rw [h])
    exact fun n => pulled_of_spent hspent n
  | @fault l after f h =>
    have hspent : after.Spent := by
      have hafter : (l.next ops source).2.Spent := spent_next fun t ht => by
        rw [h] at ht
        cases ht
      rwa [h] at hafter
    rintro (_ | n)
    · change (l.next ops source).1 = _
      rw [h]
      rfl
    · have hrest : l.pulled ops source (n + 1) = after.pulled ops source n := by
        simp only [pulled, afterPulls, h]
      rw [hrest, pulled_of_spent hspent]
      rfl
  | @token l after t tokens ending h _ ih =>
    rintro (_ | n)
    · change (l.next ops source).1 = _
      rw [h]
      rfl
    · have hrest : l.pulled ops source (n + 1) = after.pulled ops source n := by
        simp only [pulled, afterPulls, h]
      rw [hrest, ih n]
      rfl

/-- Every token and the fault take at least one character. -/
theorem Emits.length_le {tokens : List Token} {ending : Option Fault}
    (h : Emits ops source l tokens ending) (hfailed : l.failed = false) :
    tokens.length + ending.toList.length ≤ l.rest.length := by
  induction h with
  | finished => exact Nat.zero_le _
  | @fault l after f h =>
    have hrest : l.rest ≠ [] := by
      intro hnil
      have hspent : l.Spent := Or.inr (by simp [skipBlanks, hnil])
      have hfinished : (l.next ops source).1 = .finished := next_eq_finished_iff.mpr hspent
      rw [h] at hfinished
      cases hfinished
    have hpos := List.length_pos_iff.mpr hrest
    simp only [List.length_nil, Option.toList_some, List.length_singleton]
    omega
  | @token l after t tokens ending h _ ih =>
    obtain ⟨c, rest, p, hrest, hpiece, rfl, rfl⟩ := of_next_token hfailed h
    have hlt := length_past_lt hrest hpiece
    have hle := ih hfailed
    rw [List.length_cons]
    omega

/-! ## Questions in between -/

/-- What a lexer can be asked. -/
inductive Call where
  | hasNext
  | next
deriving DecidableEq

/-- What it answers. -/
inductive Answer where
  | more (holds : Bool)
  | pull (x : Pull)

def Answer.pull? : Answer → Option Pull
  | more _ => none
  | pull x => some x

def Answer.token? : Answer → Option Token
  | pull (.token t) => some t
  | _ => none

/-- The answer says that there is nothing more. -/
def Answer.IsOver (a : Answer) : Prop := a = .more false ∨ a = .pull .finished

/-- The answer to a call, and the lexer after it. -/
def ask (ops : OperatorTable) (source : Source) (l : Lexer) : Call → Answer × Lexer
  | .hasNext => (.more l.hasNext.1, l.hasNext.2)
  | .next => (.pull (l.next ops source).1, (l.next ops source).2)

/-- The answers to some calls, one after the other. -/
def answers (ops : OperatorTable) (source : Source) : Lexer → List Call → List Answer
  | _, [] => []
  | l, call :: calls =>
    (l.ask ops source call).1 :: answers ops source (l.ask ops source call).2 calls

theorem hasNext_eq_false_iff : l.hasNext.1 = false ↔ l.Spent := by
  unfold hasNext Spent
  simp only [Bool.and_eq_false_iff, Bool.not_eq_false', List.isEmpty_iff]
  rfl

theorem next_skipBlanks (hfailed : l.failed = false) :
    l.skipBlanks.next ops source = l.next ops source := by
  have hfailed' : l.skipBlanks.failed = false := hfailed
  unfold next
  simp only [hfailed, hfailed', skipBlanks_skipBlanks, Bool.false_eq_true, ↓reduceIte]

/-- To pass over blanks changes no pull. -/
theorem pulled_skipBlanks (n : Nat) :
    l.skipBlanks.pulled ops source n = l.pulled ops source n := by
  cases hfailed : l.failed with
  | true =>
    have hspent : l.Spent := Or.inl hfailed
    rw [pulled_of_spent hspent, pulled_of_spent (spent_skipBlanks.mpr hspent)]
  | false =>
    cases n with
    | zero => exact congrArg Prod.fst (next_skipBlanks hfailed)
    | succ n => simp only [pulled, afterPulls, next_skipBlanks hfailed]

/-- The pulls are the same without the questions. -/
theorem pulls_of_answers (ops : OperatorTable) (source : Source) (l : Lexer)
    (calls : List Call) :
    (l.answers ops source calls).filterMap Answer.pull? =
      (List.range (calls.count .next)).map (l.pulled ops source) := by
  induction calls generalizing l with
  | nil => rfl
  | cons call calls ih =>
    cases call with
    | hasNext =>
      have hrest := ih l.skipBlanks
      have hpulled : l.skipBlanks.pulled ops source = l.pulled ops source :=
        funext pulled_skipBlanks
      rw [hpulled] at hrest
      rw [List.count_cons_of_ne (by decide)]
      exact hrest
    | next =>
      have hrest := ih (l.next ops source).2
      rw [List.count_cons_self, List.range_succ_eq_map, List.map_cons, List.map_map]
      exact congrArg _ hrest

/-- The answers behind some others are answers of the lexer that has given these. -/
theorem answers_suffix {calls : List Call} {before after : List Answer}
    (h : l.answers ops source calls = before ++ after) :
    ∃ (m : Lexer) (others : List Call), after = m.answers ops source others := by
  induction before generalizing l calls with
  | nil => exact ⟨l, calls, h.symm⟩
  | cons a before ih =>
    cases calls with
    | nil => cases h
    | cons call calls => exact ih (List.cons.inj h).2

theorem Spent.answers (h : l.Spent) (calls : List Call) :
    ∀ a ∈ l.answers ops source calls, a.IsOver := by
  induction calls generalizing l with
  | nil => exact List.forall_mem_nil _
  | cons call calls ih =>
    cases call with
    | hasNext =>
      refine List.forall_mem_cons.mpr ⟨Or.inl ?_, ih (spent_skipBlanks.mpr h)⟩
      exact congrArg Answer.more (hasNext_eq_false_iff.mpr h)
    | next =>
      refine List.forall_mem_cons.mpr ⟨Or.inr ?_, ih h.next⟩
      exact congrArg Answer.pull (next_eq_finished_iff.mpr h)

/-- Behind a pull that gives no token nothing more comes. -/
theorem isOver_of_pull {calls : List Call} {before after : List Answer} {x : Pull}
    (h : l.answers ops source calls = before ++ .pull x :: after) (hx : ∀ t, x ≠ .token t) :
    ∀ a ∈ after, a.IsOver := by
  obtain ⟨m, others, hothers⟩ := answers_suffix h
  cases others with
  | nil => cases hothers
  | cons call others =>
    obtain ⟨hpull, hafter⟩ := List.cons.inj hothers
    cases call with
    | hasNext => cases hpull
    | next =>
      rw [Answer.pull.inj hpull] at hx
      rw [hafter]
      exact (spent_next hx).answers others

/-- A question is answered by what the next pull gives. -/
theorem finished_iff_of_more {calls : List Call} {before middle after : List Answer} {b : Bool}
    {x : Pull} (h : l.answers ops source calls = before ++ .more b :: (middle ++ .pull x :: after))
    (hmiddle : ∀ a ∈ middle, a.pull? = none) : b = false ↔ x = .finished := by
  obtain ⟨m, others, hothers⟩ := answers_suffix h
  cases others with
  | nil => cases hothers
  | cons call others =>
    obtain ⟨hmore, hafter⟩ := List.cons.inj hothers
    cases call with
    | next => cases hmore
    | hasNext =>
      -- The first pull behind the question is the one that would have come without it.
      have hanswers : m.skipBlanks.answers ops source others = middle ++ .pull x :: after :=
        hafter.symm
      have hpulls := pulls_of_answers ops source m.skipBlanks others
      rw [hanswers, List.filterMap_append, List.filterMap_eq_nil_iff.mpr hmiddle] at hpulls
      have hx : x = m.skipBlanks.pulled ops source 0 := by
        cases hcount : others.count .next with
        | zero =>
          rw [hcount] at hpulls
          cases hpulls
        | succ k =>
          rw [hcount, List.range_succ_eq_map] at hpulls
          exact (List.cons.inj hpulls).1
      rw [Answer.more.inj hmore, hx, pulled_skipBlanks, hasNext_eq_false_iff]
      exact next_eq_finished_iff.symm

theorem length_tokens_le (ops : OperatorTable) (source : Source) (l : Lexer)
    (calls : List Call) :
    ((l.answers ops source calls).filterMap Answer.token?).length ≤ l.rest.length := by
  induction calls generalizing l with
  | nil => exact Nat.zero_le _
  | cons call calls ih =>
    have hblanks : l.skipBlanks.rest.length ≤ l.rest.length :=
      (List.dropWhile_suffix isBlank).length_le
    cases call with
    | hasNext => exact (ih l.skipBlanks).trans hblanks
    | next =>
      obtain ⟨x, after, hpulls⟩ := exists_pulls ops source l
      have hanswers : l.answers ops source (.next :: calls) =
          .pull x :: after.answers ops source calls := by
        simp only [answers, ask, hpulls.next_eq]
      have hafter := ih after
      rw [hanswers]
      cases hpulls with
      | afterFault => exact hafter
      | finished | misread | clash => exact hafter.trans hblanks
      | @token c rest p hfailed hrest hpiece hclash =>
        have hlt := length_past_lt hrest hpiece
        have htoken : Answer.token? (.pull (.token (l.tokenOf p))) = some (l.tokenOf p) := rfl
        rw [List.filterMap_cons_some htoken, List.length_cons]
        omega

end Lexer

/-- Whatever the text and the operators are, whether or not an operand may follow an operand, and
in whatever order it is asked and pulled at: a lexer gives what it would give if it was only pulled
at, it says that there is nothing more exactly if the next pull gives nothing, it gives nothing
behind a fault or the end, and the end comes before there are more tokens than characters. -/
theorem questions_leave_the_pulls_alone (ops : OperatorTable) (source : Source) (strict : Bool)
    (calls : List Lexer.Call) :
    let l := Lexer.ofCode source.code strict
    let answers := l.answers ops source calls
    answers.filterMap Lexer.Answer.pull? =
      (List.range (calls.count .next)).map (l.pulled ops source) ∧
    (∀ before b middle x after, answers = before ++ .more b :: (middle ++ .pull x :: after) →
      (∀ a ∈ middle, a.pull? = none) → (b = false ↔ x = .finished)) ∧
    (∀ before x after, answers = before ++ .pull x :: after → (∀ t, x ≠ .token t) →
      ∀ a ∈ after, a = .more false ∨ a = .pull .finished) ∧
    (answers.filterMap Lexer.Answer.token?).length ≤ source.code.length ∧
    ∀ n, source.code.length ≤ n → l.pulled ops source n = .finished := by
  intro l answers
  have hlength : l.rest.length = source.code.length := String.length_toList
  refine ⟨Lexer.pulls_of_answers ops source l calls,
    fun before b middle x after h hmiddle => Lexer.finished_iff_of_more h hmiddle,
    fun before x after h hx => Lexer.isOver_of_pull h hx, ?_, fun n hn => ?_⟩
  · rw [← hlength]
    exact Lexer.length_tokens_le ops source l calls
  · obtain ⟨tokens, ending, hemits⟩ := Lexer.exists_emits ops source l rfl
    have hle := hemits.length_le rfl
    rw [hemits.streams n, List.getElem?_eq_none]
    · rfl
    · rw [List.length_append, List.length_map, List.length_map]
      omega

end TickScript
