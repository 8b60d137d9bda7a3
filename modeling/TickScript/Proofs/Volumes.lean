-- Loops over boxes and scans. Both go through the positions of a box, one within a script and under
-- its names, the other from the console and with names of its own each time. Where an expression
-- looks at the position alone and changes nothing, both count the same.
import TickScript.Proofs.Commands
import TickScript.Proofs.Destructuring
import TickScript.Proofs.Kinds
import TickScript.Proofs.PrintedNumbers
import TickScript.Proofs.Scans

namespace TickScript

open Library

variable {s : State} {x : Float}

/-! ## Whole numbers rounded down -/

namespace Number

open Float.Model UnpackedFloat

theorem signed_mul (s : Sign) (m n : ℕ) : signed s (m * n) = signed s m * n := by
  cases s <;> simp [signed]

theorem floor64_of_unpack {s : Sign} {n : ℕ} (hpos : 0 < n) (hn : n < 0x20000000000000)
    (hx : x.toModel.unpack = .finite s (mantissaOf n) (n.log2 - 52) (mantissaOf_pos hpos)) :
    floor64 x = signed s n := by
  have hlog : n.log2 < 53 := (Nat.log2_lt hpos.ne').mpr hn
  have hup : ((n.log2 : ℤ) - 52).toNat = 0 := by omega
  have hdown : (-((n.log2 : ℤ) - 52)).toNat = 52 - n.log2 := by omega
  have hshift : mantissaOf n = n * 2 ^ (52 - n.log2) := Nat.shiftLeft_eq n _
  have hunit : ((2 ^ (52 - n.log2) : ℕ) : ℤ) ≠ 0 := by positivity
  simp only [floor64, toInt64, hx, hup, hdown, Nat.shiftLeft_zero, Nat.pow_eq, hshift, signed_mul,
    Int.mul_fdiv_cancel _ hunit]
  unfold clamp64
  cases s <;> simp only [signed] <;> omega

/-- Whole numbers up to two to the power of 53 are as they are. -/
theorem floor64_ofInt {i : ℤ} (hi : i.natAbs ≤ 0x20000000000000) : floor64 (Float.ofInt i) = i := by
  rcases hi.lt_or_eq with hlt | heq
  · cases i with
    | ofNat n =>
      rcases Nat.eq_zero_or_pos n with rfl | hpos
      · decide
      · exact floor64_of_unpack hpos hlt (unpack_ofNat hpos hlt)
    | negSucc n => exact floor64_of_unpack n.succ_pos hlt (unpack_neg (unpack_ofNat n.succ_pos hlt))
  · rcases Int.natAbs_eq i with h | h <;> rw [h, heq] <;> decide

theorem floor64_of_beq {i : ℤ} (hi : i.natAbs ≤ 0x20000000000000)
    (hx : (x == Float.ofInt i) = true) : floor64 x = i := by
  have hwhole := floor64_ofInt hi
  obtain ⟨-, -, rfl | ⟨rfl, hzero⟩ | ⟨rfl, hzero⟩⟩ := Float.beq_iff_ne_nan_and_eq.mp hx
  · exact hwhole
  · rw [← hwhole, hzero]
    decide
  · rw [← hwhole, hzero]
    decide

end Number

/-! ## Expressions that look at a position -/

/-- A position as a value. -/
def Position.value (p : Position) : Value :=
  .list [.number (.ofInt p.x), .number (.ofInt p.y), .number (.ofInt p.z)]

/-- The second machine is the first one later on. It differs at most in its snooper and in the
identities that were given out since, some of which may be spent. -/
structure Machine.Keeps (m n : Machine) : Prop where
  same : n = { m with snooper := n.snooper, fresh := n.fresh, spent := n.spent }
  fresh : m.fresh ≤ n.fresh
  spent : ∀ id ∈ n.spent, id ∈ m.spent ∨ id < n.fresh

namespace Machine.Keeps

theorem refl (m : Machine) : m.Keeps m := ⟨rfl, Nat.le_refl _, fun _ h => Or.inl h⟩

theorem trans {m n k : Machine} (h : m.Keeps n) (h' : n.Keeps k) : m.Keeps k where
  same := by
    rw [h'.same, h.same]
  fresh := Nat.le_trans h.fresh h'.fresh
  spent id hid := by
    rcases h'.spent id hid with hid | hid
    · exact (h.spent id hid).imp_right fun hlt => Nat.lt_of_lt_of_le hlt h'.fresh
    · exact Or.inr hid

theorem cancelled {m n : Machine} (h : m.Keeps n) : n.cancelled = m.cancelled := by
  rw [h.same]

end Machine.Keeps

/-- Wherever `_` is this position, the operand has a value, which is true or not as said here, and
changes nothing. It depends on no other variable. -/
def Lazy.Observes (x : Lazy) (m : Machine) (p : Position) (holds : Bool) : Prop :=
  ∀ s : State, m.Keeps s.machine → s.get? "_" = some (p.value.bindTo "_") →
    ∃ v t, x .value s = .ok v t ∧ v.truth = holds ∧ t.locals = s.locals ∧
      s.machine.Keeps t.machine ∧ t.machine.snooper = s.machine.snooper

/-- The truth of an operand that takes no heed of what its value is wanted for. -/
theorem Lazy.Observes.truth {x : Lazy} {m : Machine} {p : Position} {holds : Bool}
    (h : x.Observes m p holds) (hsteady : x.Steady) (hs : m.Keeps s.machine)
    (hhere : s.get? "_" = some (p.value.bindTo "_")) :
    ∃ t, x.truth s = .ok holds t ∧ m.Keeps t.machine := by
  obtain ⟨v, t, hvalue, rfl, -, hkeeps, -⟩ := h s hs hhere
  rw [hsteady .value .boolean] at hvalue
  refine ⟨t, ?_, hs.trans hkeeps⟩
  unfold Lazy.truth
  rw [Run.bind_of_ok hvalue]
  rfl

/-! ## The loop over a box -/

/-- The state in which a loop over a box evaluates its body at a position. -/
def State.atPosition (s : State) (p : Position) : State :=
  (((s.set "_x" ((Value.number (.ofInt p.x)).bindTo "_x")).set
    "_y" ((Value.number (.ofInt p.y)).bindTo "_y")).set
    "_z" ((Value.number (.ofInt p.z)).bindTo "_z")).set "_" (p.value.bindTo "_")

theorem State.get?_underscore (locals : Registry Value) (v : Value) (m : Machine) :
    State.get? ⟨locals.set "_" v, m⟩ "_" = some v := by
  have hlocal : isGlobalName "_" = false := by decide
  simp only [State.get?, hlocal, Bool.false_eq_true, ↓reduceIte, Registry.get?_set,
    Option.some_or]

theorem State.get?_atPosition (s : State) (p : Position) :
    (s.atPosition p).get? "_" = some (p.value.bindTo "_") :=
  State.get?_underscore _ _ _

section Loops

variable {m : Machine} {box : Box} {body : Lazy} {holds : Position → Bool}

theorem volumeFrom_succ (hgoes : s.machine.cancelled = false) (n i count : Nat) :
    volumeFrom box body (n + 1) i count s =
      (do
        let holds ← body.truth
        volumeFrom box body n (i + 1) (if holds then count + 1 else count))
        (s.atPosition (box.position i)) := by
  rw [volumeFrom, Run.bind_of_ok (Run.checkStop_of_not_cancelled hgoes)]
  rfl

/-- A loop over positions adds the number of those where its body is true. -/
theorem volumeFrom_of_observes (hsteady : body.Steady) (hgoes : m.cancelled = false) {n i : Nat}
    (hbody : ∀ p ∈ Console.positionsFrom box n i, body.Observes m p (holds p)) (count : Nat)
    (hs : m.Keeps s.machine) :
    ∃ t, volumeFrom box body n i count s =
      .ok (count + (Console.positionsFrom box n i).countP holds) t := by
  induction n generalizing i count s with
  | zero => exact ⟨s, rfl⟩
  | succ n ih =>
    rw [Console.positionsFrom_succ] at hbody ⊢
    obtain ⟨hfirst, hrest⟩ := List.forall_mem_cons.mp hbody
    obtain ⟨t, htruth, ht⟩ := hfirst.truth hsteady (s := s.atPosition (box.position i)) hs
      (s.get?_atPosition _)
    rw [volumeFrom_succ (hs.cancelled.trans hgoes), Run.bind_of_ok htruth, List.countP_cons]
    obtain ⟨u, hu⟩ := ih hrest (if holds (box.position i) then count + 1 else count) ht
    refine ⟨u, hu.trans ?_⟩
    congr 1
    split <;> omega

/-- The operand is a whole number, whatever it is wanted for, and changes nothing. -/
def Lazy.StandsFor (x : Lazy) (i : Int) : Prop :=
  ∃ f : Float, (f == Float.ofInt i) = true ∧ ∀ s, x .value s = .ok (.number f) s

/-- The coordinates of two corners, in the order in which they are written. -/
def Position.coordinates (a b : Position) : List Int := [a.x, a.y, a.z, b.x, b.y, b.z]

theorem coordinate_of_standsFor {x : Lazy} {i : Int} (h : x.StandsFor i)
    (hi : i.natAbs ≤ 0x20000000000000) (s : State) : coordinate x s = .ok i s := by
  obtain ⟨f, hf, hx⟩ := h
  unfold coordinate
  rw [Run.bind_of_ok (hx s), ← Number.floor64_of_beq hi hf]
  rfl

variable {x1 y1 z1 x2 y2 z2 : Lazy} {a b : Position}
  (hfits : ∀ i ∈ a.coordinates b, i.natAbs ≤ 0x20000000000000)
  (hcorners : List.Forall₂ Lazy.StandsFor [x1, y1, z1, x2, y2, z2] (a.coordinates b))

include hfits hcorners

theorem boxOf_of_standsFor (s : State) :
    boxOf x1 y1 z1 x2 y2 z2 s = .ok (.ofCorners a b) s := by
  simp only [Position.coordinates, List.forall_mem_cons] at hfits
  obtain ⟨hfx1, hfy1, hfz1, hfx2, hfy2, hfz2, -⟩ := hfits
  simp only [Position.coordinates, List.forall₂_cons] at hcorners
  obtain ⟨hx1, hy1, hz1, hx2, hy2, hz2, -⟩ := hcorners
  unfold boxOf
  rw [Run.bind_of_ok (coordinate_of_standsFor hx1 hfx1 s),
    Run.bind_of_ok (coordinate_of_standsFor hy1 hfy1 s),
    Run.bind_of_ok (coordinate_of_standsFor hz1 hfz1 s),
    Run.bind_of_ok (coordinate_of_standsFor hx2 hfx2 s),
    Run.bind_of_ok (coordinate_of_standsFor hy2 hfy2 s),
    Run.bind_of_ok (coordinate_of_standsFor hz2 hfz2 s)]
  rfl

/-- A loop over a box counts the positions where its body is true. -/
theorem volumeLoop_of_observes (hsteady : body.Steady) (hgoes : m.cancelled = false)
    (hbody : ∀ p : Position, p.Within a b → body.Observes m p (holds p)) (kind : Kind)
    (hs : m.Keeps s.machine) :
    ∃ t, (volumeLoop x1 y1 z1 x2 y2 z2 body >>= fun result => result kind) s =
      .ok (.number (.ofNat ((Box.ofCorners a b).positions.countP holds))) t := by
  have hpositions : ∀ p ∈ Console.positionsFrom (.ofCorners a b) (Box.ofCorners a b).volume 0,
      body.Observes m p (holds p) := by
    intro p hp
    rw [Console.positionsFrom_volume, Box.mem_positions_ofCorners] at hp
    exact hbody p hp
  obtain ⟨t, hcount⟩ := volumeFrom_of_observes hsteady hgoes hpositions 0 hs
  rw [Console.positionsFrom_volume, Nat.zero_add] at hcount
  rw [volumeLoop_eq, Run.bind_of_ok (boxOf_of_standsFor hfits hcorners s),
    Run.bind_of_ok (Run.restoring_of_ok _ hcount)]
  exact ⟨_, rfl⟩

end Loops

/-- The expression is a whole number and changes nothing. -/
def Expr.StandsFor (e : Expr) (i : Int) : Prop := (evaluate .standard e).StandsFor i

/-- The call of the loop in a script counts the positions where its last operand is true. -/
theorem evaluate_volume {a b : Position}
    (hfits : ∀ i ∈ a.coordinates b, i.natAbs ≤ 0x20000000000000) {xs : List Expr}
    (hxs : List.Forall₂ Expr.StandsFor xs (a.coordinates b)) {m : Machine}
    (hgoes : m.cancelled = false) {e : Expr} {holds : Position → Bool}
    (he : ∀ p : Position, p.Within a b → (evaluate .standard e).Observes m p (holds p))
    (site : Site) (kind : Kind) (hs : m.Keeps s.machine) :
    ∃ t, evaluate .standard (.call "volume" (xs ++ [e]) site) kind s =
      .ok (.number (.ofNat ((Box.ofCorners a b).positions.countP holds))) t := by
  unfold Position.coordinates at hxs
  simp only [List.forall₂_cons_right_iff, List.forall₂_nil_right_iff] at hxs
  obtain ⟨x1, _, hx1, ⟨y1, _, hy1, ⟨z1, _, hz1, ⟨x2, _, hx2, ⟨y2, _, hy2, ⟨z2, _, hz2, rfl, rfl⟩,
    rfl⟩, rfl⟩, rfl⟩, rfl⟩, rfl⟩ := hxs
  obtain ⟨t, ht⟩ := volumeLoop_of_observes hfits
    (.cons hx1 (.cons hy1 (.cons hz1 (.cons hx2 (.cons hy2 (.cons hz2 .nil))))))
    (steady_evaluateWithin _ e) hgoes he kind hs
  have hcall := Loop.denote_call (Loop.function?_standard .volume)
    (evaluateWithin .standard (maxCallDepth + 1)) [x1, y1, z1, x2, y2, z2, e] site kind
  exact ⟨t, (congrFun hcall s).trans (Run.located_of_ok site ht)⟩

/-! ## The scan of a box -/

namespace Console

section Scans

variable {m : Machine} {script : Script} {holds : Position → Bool}

/-- A scan looks at a position with `_` for it. -/
theorem look_of_observes (origin : Position) {p : Position} {answer : Bool}
    (h : (evaluate .standard script.root).Observes m p answer) {n : Machine} (hn : m.Keeps n) :
    ∃ v t, look .standard script origin p n = .ok v t ∧ v.truth = answer ∧ m.Keeps t.machine := by
  have hfresh : n.Keeps { n with fresh := n.fresh + 1 } :=
    ⟨rfl, Nat.le_succ _, fun _ hid => Or.inl hid⟩
  obtain ⟨v, t, hvalue, htruth, -, hkeeps, -⟩ := h
    ⟨scanLocals origin p n.fresh, { n with fresh := n.fresh + 1 }⟩ (hn.trans hfresh)
    (State.get?_underscore _ _ _)
  exact ⟨v, t, Run.reported_of_ok hvalue, htruth, (hn.trans hfresh).trans hkeeps⟩

/-- All visits pass, and the script is true at the positions where it is observed to be. -/
theorem tour_of_observes (origin : Position) {ps : List Position}
    (hps : ∀ p ∈ ps, (evaluate .standard script.root).Observes m p (holds p)) {n : Machine}
    (hn : m.Keeps n) :
    (∀ v ∈ tour (look .standard script origin) ps n, v.passes = true) ∧
      (tour (look .standard script origin) ps n).countP Visit.holds = ps.countP holds := by
  induction ps generalizing n with
  | nil => exact ⟨fun _ hv => absurd hv List.not_mem_nil, rfl⟩
  | cons p ps ih =>
    obtain ⟨hp, hps⟩ := List.forall_mem_cons.mp hps
    obtain ⟨v, t, hlook, htruth, ht⟩ := look_of_observes origin hp hn
    have hpasses : (Visit.ofLook (look .standard script origin) p n).passes = true := by
      simp only [Visit.passes, Visit.ofLook, hlook]
    have hafter : (Visit.ofLook (look .standard script origin) p n).after = t.machine := by
      simp only [Visit.after, Visit.ofLook, hlook]
    have hholds : (Visit.ofLook (look .standard script origin) p n).holds = holds p := by
      simp only [Visit.holds, Visit.ofLook, hlook, htruth]
    obtain ⟨hrest, hcount⟩ := ih hps ht
    rw [tour_cons_of_passes hpasses, hafter, List.forall_mem_cons, List.countP_cons,
      List.countP_cons, hcount, hholds]
    exact ⟨⟨hpasses, hrest⟩, rfl⟩

variable {c : Console} {a b : Position} {code : String} {s : State}

/-- A scan reports the number of positions where the script is true. -/
theorem scan_of_observes (origin : Position)
    (hlimit : Set.ncard {p : Position | p.Within a b} ≤ c.scanLimit)
    (hgoes : s.machine.cancelled = false) (hread : Script.read .standard ⟨code, none⟩ = .ok script)
    (hscript : ∀ p : Position, p.Within a b →
      (evaluate .standard script.root).Observes s.machine p (holds p)) :
    ∃ lines t, c.scan .standard origin a b code s =
      .ok (lines ++ [.plain (tally ((Box.ofCorners a b).positions.countP holds)
        (Box.ofCorners a b).volume64)]) t := by
  have hle : ¬ c.scanLimit < (Box.ofCorners a b).volume64 := by
    rw [Box.volume64_eq (Box.proper_ofCorners a b), ← Box.ncard_within]
    omega
  have hstart : s.machine.Keeps { s.machine with snooper := some (.printer true) } :=
    ⟨rfl, Nat.le_refl _, fun _ hid => Or.inl hid⟩
  obtain ⟨hpasses, hcount⟩ := tour_of_observes origin
    (fun p hp => hscript p (Box.mem_positions_ofCorners.mp hp)) hstart
  have hscan := scanBox_of_passes
    (s := { s with machine := { s.machine with snooper := some (.printer true) } }) rfl hpasses
  rw [scan_eq hle hgoes hread, Run.snooped_of_ok hscan, hcount]
  exact ⟨_, _, rfl⟩

/-- A line is answered as its command is, perhaps after the line itself. -/
theorem execute_of_dispatch {lang : Language} {line : String} {command : Command}
    (hread : Command.read line = .ok (some command)) {lines : List ReplyLine} {t : State}
    (h : c.dispatch lang command s = .ok lines t) :
    ∃ echoed, c.execute lang line s = .ok ⟨echoed ++ lines, command = .quit⟩ t := by
  cases hecho : c.echo with
  | false =>
    refine ⟨[], ?_⟩
    simp [execute, hread, hecho, bind, EStateM.bind, h]
    rfl
  | true =>
    refine ⟨[.plain ("> " ++ Text.trim line)], ?_⟩
    simp [execute, hread, hecho, bind, EStateM.bind, h]
    rfl

end Scans

end Console

/-! ## Both count the same -/

section Exchanged

variable {a b a' b' : Position}

theorem Position.within_of_exchanged (h : a.Exchanged b a' b') (p : Position) :
    p.Within a' b' ↔ p.Within a b := by
  rw [← Box.mem_positions_ofCorners, Box.ofCorners_of_exchanged h, Box.mem_positions_ofCorners]

theorem coordinates_of_exchanged (h : a.Exchanged b a' b') :
    a'.coordinates b' ⊆ a.coordinates b := by
  obtain ⟨hx, hy, hz⟩ := h
  unfold Position.coordinates
  rcases hx with ⟨hx, hx'⟩ | ⟨hx, hx'⟩ <;> rcases hy with ⟨hy, hy'⟩ | ⟨hy, hy'⟩ <;>
    rcases hz with ⟨hz, hz'⟩ | ⟨hz, hz'⟩ <;> rw [hx, hx', hy, hy', hz, hz'] <;> simp

theorem fitsPosition_of_natAbs_le (h : ∀ i ∈ a.coordinates b, i.natAbs ≤ 0x20000000000000) :
    Command.FitsPosition a ∧ Command.FitsPosition b := by
  simp only [Position.coordinates, List.forall_mem_cons] at h
  constructor <;> constructor <;> unfold Fits64 <;> omega

end Exchanged

/-- A loop over a box and a scan of it from the origin count the same: the positions of the box
where the expression is true, whichever corner comes first along which axis. The corners of the loop
are any expressions that stand for whole numbers, and its body is the expression wherever that is
written. -/
theorem a_loop_counts_what_a_scan_reports (c : Console) (a b : Position)
    (hfits : ∀ i ∈ a.coordinates b, i.natAbs ≤ 0x20000000000000)
    (hlimit : Set.ncard {p : Position | p.Within a b} ≤ c.scanLimit) (code : String)
    (hcode : Command.IsCode code) (script : Script)
    (hread : Script.read .standard ⟨code, none⟩ = .ok script) (s : State)
    (hgoes : s.machine.cancelled = false) (holds : Position → Bool)
    (hobserves : ∀ p : Position, p.Within a b →
      (evaluate .standard script.root).Observes s.machine p (holds p)) :
    let k := Set.ncard {p : Position | p.Within a b ∧ holds p = true}
    let n := Set.ncard {p : Position | p.Within a b}
    ∀ a' b' : Position, a.Exchanged b a' b' →
      (∀ (xs : List Expr) (body : Expr) (site : Site) (kind : Kind) (t : State),
        List.Forall₂ Expr.StandsFor xs (a'.coordinates b') →
        script.root.Alike (fun _ _ => True) body → s.machine.Keeps t.machine →
        ∃ u, evaluate .standard (.call "volume" (xs ++ [body]) site) kind t =
          .ok (.number (.ofNat k)) u) ∧
      ∃ lines u, c.execute .standard (Command.scan ⟨0, 0, 0⟩ a' b' code).spelling s =
        .ok ⟨lines ++ [.plain (Console.tally k (min n Text.mostNat64))], false⟩ u := by
  intro k n a' b' hexchanged
  have hbox := Box.ofCorners_of_exchanged hexchanged
  have hfits' : ∀ i ∈ a'.coordinates b', i.natAbs ≤ 0x20000000000000 := fun i hi =>
    hfits i (coordinates_of_exchanged hexchanged hi)
  have hobserves' : ∀ p : Position, p.Within a' b' →
      (evaluate .standard script.root).Observes s.machine p (holds p) := fun p hp =>
    hobserves p ((Position.within_of_exchanged hexchanged p).mp hp)
  have hk : (Box.ofCorners a' b').positions.countP holds = k := by
    rw [hbox, ← Box.ncard_within_and]
  have hn : (Box.ofCorners a' b').volume64 = min n Text.mostNat64 := by
    rw [hbox, Box.volume64_eq (Box.proper_ofCorners a b), ← Box.ncard_within]
  constructor
  · intro xs body site kind t hxs hbody ht
    obtain ⟨u, hu⟩ := evaluate_volume hfits' hxs hgoes hobserves' site kind ht
    -- The loop with the other body is the same but for its sites.
    have halike : Expr.Alike (fun _ _ => True) (.call "volume" (xs ++ [script.root]) site)
        (.call "volume" (xs ++ [body]) site) :=
      .call "volume" (List.rel_append (Expr.allAlike_refl (fun _ => trivial) xs)
        (.cons hbody .nil)) trivial
    obtain ⟨u', hu', -⟩ := evaluate_of_alike Language.respects_standard halike hu
    exact ⟨u', hk ▸ hu'⟩
  · have hlimit' : Set.ncard {p : Position | p.Within a' b'} ≤ c.scanLimit := by
      rwa [Box.ncard_within, hbox, ← Box.ncard_within]
    have horigin : Command.FitsPosition ⟨0, 0, 0⟩ := by
      constructor <;> unfold Fits64 <;> decide
    obtain ⟨hcorner, hopposite⟩ := fitsPosition_of_natAbs_le hfits'
    have hline := Command.read_spelling (c := .scan ⟨0, 0, 0⟩ a' b' code)
      ⟨horigin, hcorner, hopposite, hcode⟩
    obtain ⟨lines, u, hscan⟩ := Console.scan_of_observes ⟨0, 0, 0⟩ hlimit' hgoes hread hobserves'
    obtain ⟨echoed, hanswer⟩ := Console.execute_of_dispatch hline hscan
    rw [hk, hn] at hanswer
    exact ⟨echoed ++ lines, u, by rw [hanswer, List.append_assoc]; rfl⟩

namespace Mirror

/-- The expression that is true at the origin and nowhere else. -/
def source : Source := ⟨"_ == -_", none⟩

def tree (first second minus equals : Site) : Expr :=
  .binary "==" (.var "_" false first) (.unary "-" (.var "_" false second) minus) equals

def script : Script :=
  ⟨tree ⟨⟨.name, "_", .start⟩, source⟩ ⟨⟨.name, "_", ⟨6, 0, 6⟩⟩, source⟩
    ⟨⟨.unary, "-", ⟨5, 0, 5⟩⟩, source⟩ ⟨⟨.operator, "==", ⟨2, 0, 2⟩⟩, source⟩, source⟩

theorem read_script : Script.read .standard source = .ok script := by
  cbv

def mirrored (p : Position) : Value :=
  .list [.number (-.ofInt p.x), .number (-.ofInt p.y), .number (-.ofInt p.z)]

def holds (p : Position) : Bool := p.value.equals (mirrored p)

theorem observes (m : Machine) (p : Position) :
    (evaluate .standard script.root).Observes m p (holds p) := by
  intro s _ hhere
  have hvariable (site : Site) (run : Expr → Lazy) (kind : Kind) :
      Expr.denote .standard run (.var "_" false site) kind s = .ok (p.value.bindTo "_") s := by
    refine Run.located_of_ok site ?_
    simp only [readVariable, hhere]
    rfl
  have hminus (site site' : Site) (run : Expr → Lazy) (kind : Kind) :
      Expr.denote .standard run (.unary "-" (.var "_" false site) site') kind s =
        .ok (mirrored p) s := by
    refine Run.located_of_ok site' (?_ : minus kind _ s = _)
    unfold minus
    rw [Run.bind_of_ok (hvariable site run .value)]
    rfl
  refine ⟨.boolean (holds p), s, ?_, by cases holds p <;> rfl, rfl, .refl _, rfl⟩
  refine Run.located_of_ok _ (?_ : relation Value.equals _ _ _ s = _)
  unfold relation onValues
  rw [Run.bind_of_ok (hvariable _ _ _), Run.bind_of_ok (hminus _ _ _ _)]
  rfl

def corner : Position := ⟨1, 0, 0⟩

def opposite : Position := ⟨-1, 0, 0⟩

def console : Console := ⟨3, false⟩

def state : State := ⟨.empty, .standard⟩

/-- A place in another script. -/
def site : Site := ⟨⟨.name, "volume", .start⟩, ⟨"", none⟩⟩

def corners : List Expr :=
  [.unary "-" (.number 1) site, .number 0, .unary "-" (.number 0) site, .number 1, .number 0,
    .number 0]

theorem standsFor_number {i : Int} (h : (x == Float.ofInt i) = true) :
    (Expr.number x).StandsFor i :=
  ⟨x, h, fun _ => rfl⟩

theorem standsFor_minus {i : Int} (h : (-x == Float.ofInt i) = true) :
    (Expr.unary "-" (.number x) site).StandsFor i :=
  ⟨-x, h, fun _ => rfl⟩

end Mirror

open Mirror in
/-- One of three positions is opposite to itself. One of the corners of the loop has a minus sign
before a zero. -/
theorem only_the_origin_is_opposite_to_itself :
    Script.read .standard source = .ok script ∧
      (∃ u, evaluate .standard (.call "volume" (corners ++ [tree site site site site]) site) .value
        state = .ok (.number 1) u) ∧
      ∃ lines u, console.execute .standard "scan 0 0 0 -1 0 0 1 0 0 _ == -_" state =
        .ok ⟨lines ++ [.plain "Expression successful in 1 out of 3 blocks"], false⟩ u := by
  have hn : Set.ncard {p : Position | p.Within corner opposite} = 3 := Box.ncard_within _ _
  have hk : Set.ncard {p : Position | p.Within corner opposite ∧ holds p = true} = 1 := by
    rw [Box.ncard_within_and]
    decide
  -- The expression begins and ends with the same character.
  have hblank : ∀ c, some '_' = some c → Text.isBlank c = false := by
    rintro c ⟨⟩
    decide
  have hcode : Command.IsCode "_ == -_" := ⟨by decide, hblank, hblank⟩
  obtain ⟨hloop, lines, u, hscan⟩ := a_loop_counts_what_a_scan_reports console corner opposite
    (by decide) hn.le "_ == -_" hcode script read_script state rfl holds
    (fun p _ => observes _ p) opposite corner ⟨.inr ⟨rfl, rfl⟩, .inl ⟨rfl, rfl⟩, .inl ⟨rfl, rfl⟩⟩
  rw [hk] at hloop hscan
  rw [hn] at hscan
  have hcorners : List.Forall₂ Expr.StandsFor corners (opposite.coordinates corner) :=
    .cons (standsFor_minus (by decide)) <| .cons (standsFor_number (by decide)) <|
      .cons (standsFor_minus (by decide)) <| .cons (standsFor_number (by decide)) <|
      .cons (standsFor_number (by decide)) <|
      .cons (standsFor_number (by decide)) .nil
  refine ⟨read_script, hloop corners _ site .value state hcorners ?_ (.refl _), lines, u, hscan⟩
  exact .binary "==" (.var "_" false trivial) (.unary "-" (.var "_" false trivial) trivial) trivial

end TickScript
