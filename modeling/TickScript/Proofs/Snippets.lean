-- What is shown of a text when a token in it is reported. Lines are counted in two ways, by the
-- line feeds before a token and by cutting the text into lines; both find the line of the token,
-- and the mark stands where the token begins.
import TickScript.Proofs.Lexemes
import TickScript.Proofs.Pulling

namespace TickScript

open TickScript.Text

variable {cs : List Char} {c : Char}

/-! ## The lines of a text -/

/-- The text is written with these lines. Each ends with a line feed, or with a carriage return and
a line feed; the last one may go without, and is not empty then. -/
inductive IsLines : List Char → List String → Prop
  | nil : IsLines [] []
  | last {line : String} (hne : line ≠ "") (hline : '\n' ∉ line.toList) :
      IsLines line.toList [line]
  | cons {line : String} {ending rest : List Char} {lines : List String}
      (hline : '\n' ∉ line.toList)
      (hending : ending = ['\r', '\n'] ∨ ending = ['\n'] ∧ line.toList.getLast? ≠ some '\r')
      (hrest : IsLines rest lines) : IsLines (line.toList ++ (ending ++ rest)) (line :: lines)

theorem linesFrom_of_not_mem {xs : List Char} (h : '\n' ∉ xs) (current : List Char) :
    linesFrom current xs =
      if (xs.reverse ++ current).isEmpty then [] else [(xs.reverse ++ current).reverse] := by
  induction xs generalizing current with
  | nil => rfl
  | cons c xs ih =>
    rw [List.mem_cons, not_or] at h
    have hcons : linesFrom current (c :: xs) = linesFrom (c :: current) xs := by
      simp [linesFrom, Ne.symm h.1]
    rw [hcons, ih h.2, List.reverse_cons, List.append_assoc]
    rfl

theorem linesFrom_append {xs : List Char} (h : '\n' ∉ xs) (current rest : List Char) :
    linesFrom current (xs ++ '\n' :: rest) =
      (dropReturn (xs.reverse ++ current)).reverse :: linesFrom [] rest := by
  induction xs generalizing current with
  | nil => rfl
  | cons c xs ih =>
    rw [List.mem_cons, not_or] at h
    have hcons : linesFrom current (c :: xs ++ '\n' :: rest) =
        linesFrom (c :: current) (xs ++ '\n' :: rest) := by
      simp [linesFrom, Ne.symm h.1]
    rw [hcons, ih h.2, List.reverse_cons, List.append_assoc]
    rfl

theorem dropReturn_of_ne (h : cs.head? ≠ some '\r') : dropReturn cs = cs := by
  unfold dropReturn
  split
  · simp at h
  · rfl

theorem IsLines.eq_linesFrom {lines : List String} (h : IsLines cs lines) :
    lines = (linesFrom [] cs).map String.ofList := by
  induction h with
  | nil => rfl
  | last hne hline =>
    rw [linesFrom_of_not_mem hline]
    simp [hne]
  | @cons line ending rest lines hline hending _ ih =>
    rcases hending with rfl | ⟨rfl, hreturn⟩
    · have hline' : '\n' ∉ line.toList ++ ['\r'] := by simp [hline]
      have hsplit : line.toList ++ (['\r', '\n'] ++ rest) =
          (line.toList ++ ['\r']) ++ '\n' :: rest := by simp
      rw [hsplit, linesFrom_append hline', ih]
      simp [dropReturn]
    · rw [List.singleton_append, linesFrom_append hline, ih, List.append_nil,
        dropReturn_of_ne (by rwa [List.head?_reverse])]
      simp

theorem isLines_linesFrom (cs : List Char) : IsLines cs ((linesFrom [] cs).map String.ofList) := by
  induction hlength : cs.length using Nat.strongRecOn generalizing cs with
  | ind n ih =>
    by_cases hfeed : '\n' ∈ cs
    · obtain ⟨xs, rest, rfl, hxs⟩ := List.eq_append_cons_of_mem hfeed
      have hrest := ih rest.length (by simp [← hlength]; omega) rest rfl
      rw [linesFrom_append hxs, List.append_nil, List.map_cons]
      by_cases hreturn : xs.getLast? = some '\r'
      · obtain ⟨ys, rfl⟩ := List.getLast?_eq_some_iff.mp hreturn
        have hys : '\n' ∉ (String.ofList ys).toList := by simp_all
        simpa [dropReturn] using IsLines.cons hys (Or.inl rfl) hrest
      · have hdrop : dropReturn xs.reverse = xs.reverse :=
          dropReturn_of_ne (by rwa [List.head?_reverse])
        have hxs' : '\n' ∉ (String.ofList xs).toList := by simpa using hxs
        have hreturn' : (String.ofList xs).toList.getLast? ≠ some '\r' := by simpa using hreturn
        rw [hdrop]
        simpa using IsLines.cons hxs' (Or.inr ⟨rfl, hreturn'⟩) hrest
    · rw [linesFrom_of_not_mem hfeed, List.append_nil]
      cases cs with
      | nil => exact .nil
      | cons c cs =>
        have hline : '\n' ∉ (String.ofList (c :: cs)).toList := by simpa using hfeed
        simpa using IsLines.last (by simp) hline

/-- A text has one list of lines. -/
theorem isLines_iff {s : String} {lines : List String} :
    IsLines s.toList lines ↔ lines = Text.lines s := by
  constructor
  · exact fun h => h.eq_linesFrom
  · rintro rfl
    exact isLines_linesFrom s.toList

/-! ## The line of a place -/

/-- What is cut off at the end of a line is no more than its carriage return. -/
theorem reverse_dropReturn (hc : c ≠ '\r') (current w : List Char) :
    ∃ v, (dropReturn (w.reverse ++ c :: current)).reverse = current.reverse ++ c :: v ∧
      v <+: w := by
  by_cases hreturn : w.getLast? = some '\r'
  · obtain ⟨v, rfl⟩ := List.getLast?_eq_some_iff.mp hreturn
    exact ⟨v, by simp [dropReturn], List.prefix_append _ _⟩
  · refine ⟨w, ?_, List.prefix_rfl⟩
    rw [dropReturn_of_ne]
    · simp
    · cases w using List.reverseRecOn with
      | nil => simpa using hc
      | append_singleton w x => simpa using hreturn

/-- The line that is cut out at a place is the line of the place, and goes on there with what
comes next. -/
theorem getElem?_linesFrom (hfeed : c ≠ '\n') (hreturn : c ≠ '\r') (read rest current : List Char)
    (p : Place) (hp : p.column = current.length) :
    ∃ u v, (linesFrom current (read ++ c :: rest))[read.count '\n']? = some (u ++ c :: v) ∧
      u.length = (p.after read).column ∧ v <+: rest := by
  induction read generalizing current p with
  | nil =>
    have hcons : linesFrom current ([] ++ c :: rest) = linesFrom (c :: current) rest := by
      simp [linesFrom]
    rw [hcons]
    by_cases hmem : '\n' ∈ rest
    · obtain ⟨w, more, rfl, hw⟩ := List.eq_append_cons_of_mem hmem
      obtain ⟨v, hv, hprefix⟩ := reverse_dropReturn hreturn current w
      refine ⟨current.reverse, v, ?_, ?_, hprefix.trans (List.prefix_append _ _)⟩
      · rw [linesFrom_append hw, hv]
        rfl
      · rw [List.length_reverse]
        exact hp.symm
    · refine ⟨current.reverse, rest, ?_, ?_, List.prefix_rfl⟩
      · rw [linesFrom_of_not_mem hmem]
        simp
      · rw [List.length_reverse]
        exact hp.symm
  | cons d read ih =>
    by_cases hd : d = '\n'
    · subst hd
      obtain ⟨u, v, hline, hu, hv⟩ := ih [] (p.step '\n') rfl
      refine ⟨u, v, ?_, hu, hv⟩
      rw [List.count_cons_self]
      exact hline
    · have hstep : (p.step d).column = (d :: current).length := by
        simp [Place.step, hd, hp]
      obtain ⟨u, v, hline, hu, hv⟩ := ih (d :: current) (p.step d) hstep
      refine ⟨u, v, ?_, hu, hv⟩
      rw [List.count_cons_of_ne hd]
      simpa [linesFrom, hd] using hline

theorem snippet_of_lines {code u v : String} {before after : List String} {p : Place}
    (hlines : Text.lines code = before ++ (u ++ v) :: after) (hline : before.length = p.line)
    (hcolumn : u.length = p.column) :
    snippet code p =
      before.getLast?.toList ++ (u ++ " HERE>> " ++ v) :: after.head?.toList := by
  have hmarked : markedLine (u ++ v) p.column = u ++ " HERE>> " ++ v := by
    unfold markedLine
    rw [← hcolumn, ← String.length_toList, String.toList_append, List.take_left, List.drop_left,
      String.ofList_toList, String.ofList_toList]
  have hbefore : (if p.line = 0 then [] else ((before ++ (u ++ v) :: after)[p.line - 1]?).toList) =
      before.getLast?.toList := by
    cases before using List.reverseRecOn with
    | nil => simp [← hline]
    | append_singleton before x => simp [← hline]
  unfold snippet
  rw [hlines]
  simp only [hbefore]
  simp only [← hline, List.getElem?_append_right (Nat.le_refl _), Nat.sub_self,
    List.getElem?_cons_zero]
  rw [hline, hmarked, ← hline, List.getElem?_append_right (by omega)]
  simp [List.head?_eq_getElem?]

/-! ## The token that is reported -/

/-- The token that a pull gives or that its fault is reported at. -/
def Pull.token? : Pull → Option Token
  | .token t => some t
  | .fault f => f.site.map (·.token)
  | .finished => none

theorem scanOperator_reach (ops : OperatorTable) (taken : List Char) (longest : Nat)
    (rest : List Char) :
    ∃ more, (scanOperator ops taken longest rest).1 = taken ++ more ∧ more <+: rest := by
  induction rest generalizing taken longest with
  | nil => exact ⟨[], by simp [scanOperator], List.prefix_rfl⟩
  | cons c rest ih =>
    unfold scanOperator
    dsimp only
    split
    · obtain ⟨more, hmore, hprefix⟩ := ih (taken ++ [c]) _
      exact ⟨c :: more, hmore.trans (by simp), List.cons_prefix_cons.mpr ⟨rfl, hprefix⟩⟩
    · exact ⟨[], by simp, List.nil_prefix⟩

/-- What is shown of a text that could not be read begins as the text does. -/
theorem head?_of_misread {ops : OperatorTable} {kind : TokenKind} {rest : List Char} {bad : Misread}
    (h : readPiece ops kind c rest = .error bad) : (bad.kind.spell bad.surface).head? = some c := by
  unfold readPiece at h
  split at h
  · unfold readNumber at h
    split at h
    · rename_i heq
      cases heq
      split at h
      · dsimp only at h
        split at h <;> cases h
        rfl
      · cases h
    · cases h
  split at h
  · rename_i hc
    unfold readText at h
    split at h <;> cases h
    rw [hc]
    rfl
  split at h
  · cases h
  split at h
  · cases h
  split at h
  · cases h
  split at h
  · cases h
  · unfold readOperator at h
    dsimp only at h
    split at h <;> cases h
    obtain ⟨more, hmore, hprefix⟩ := scanOperator_reach ops [] 0 (c :: rest)
    rw [List.nil_append] at hmore
    change (if (scanOperator ops [] 0 (c :: rest)).1.isEmpty then (c :: rest).take 1
      else (scanOperator ops [] 0 (c :: rest)).1).head? = some c
    rw [hmore]
    rcases more with _ | ⟨d, more⟩
    · rfl
    · exact congrArg some (List.cons_prefix_cons.mp hprefix).1

namespace Lexer

variable {ops : OperatorTable} {source : Source} {l : Lexer}

theorem head?_spelled_tokenOf {rest : List Char} {p : Piece}
    (h : readPiece ops l.operatorKind c rest = .ok p) : (l.tokenOf p).spelled.head? = some c := by
  have hheads := readPiece_heads l.operatorKind_ne_text h
  have hspelled : (l.tokenOf p).spelled = p.spelled := by
    simp [Token.spelled, tokenOf, hheads.written]
  obtain ⟨d, more, hmore⟩ := List.exists_cons_of_ne_nil hheads.taken
  have hsplit := hheads.split
  rw [hmore, List.cons_append] at hsplit
  rw [hspelled, hmore, (List.cons.inj hsplit).1]
  rfl

/-- A token that is reported begins with the next character that is no blank. -/
theorem Pulls.reports {x : Pull} {after : Lexer} (h : Pulls ops source l x after) {t : Token}
    (ht : x.token? = some t) :
    ∃ c rest, l.skipBlanks.rest = c :: rest ∧ t.place = l.skipBlanks.place ∧
      t.spelled.head? = some c := by
  cases h with
  | afterFault => cases ht
  | finished => cases ht
  | misread _ hrest hpiece =>
    cases ht
    refine ⟨_, _, hrest, rfl, ?_⟩
    simpa [Token.spelled, tokenOfMisread] using head?_of_misread hpiece
  | clash _ hrest hpiece _ _ _ =>
    cases ht
    exact ⟨_, _, hrest, rfl, head?_spelled_tokenOf hpiece⟩
  | token _ hrest hpiece _ =>
    cases ht
    exact ⟨_, _, hrest, rfl, head?_spelled_tokenOf hpiece⟩

/-- The lexer stands in the text behind what it has read. -/
def StandsIn (cs : List Char) (l : Lexer) : Prop :=
  ∃ read, cs = read ++ l.rest ∧ l.place = Place.start.after read

theorem StandsIn.skipBlanks (h : l.StandsIn cs) : l.skipBlanks.StandsIn cs := by
  obtain ⟨read, rfl, hplace⟩ := h
  refine ⟨read ++ l.rest.takeWhile isBlank, ?_, ?_⟩
  · rw [List.append_assoc, ← rest_eq_blanks]
  · rw [Place.after_append, ← hplace]
    rfl

theorem StandsIn.next (h : l.StandsIn cs) : (l.next ops source).2.StandsIn cs := by
  obtain ⟨x, after, hpulls⟩ := exists_pulls ops source l
  rw [hpulls.next_eq]
  cases hpulls with
  | afterFault => exact h
  | finished => exact h.skipBlanks
  | misread => exact h.skipBlanks
  | clash => exact h.skipBlanks
  | @token c rest p hfailed hrest hpiece hclash =>
    obtain ⟨read, hread, hplace⟩ := h.skipBlanks
    have hsplit := (readPiece_heads l.operatorKind_ne_text hpiece).split
    refine ⟨read ++ p.spelled, ?_, ?_⟩
    · rw [hread, hrest, ← hsplit, List.append_assoc]
      rfl
    · rw [Place.after_append, ← hplace]
      rfl

end Lexer

/-- Whatever the text and the operators are, whether or not an operand may follow an operand: a
token that a lexer gives, or that a fault of the lexer is reported at, is shown in its line. The
lines of the text come before it, `u` and `v` together are its line, of which `u` is as long as its
column says, and `v` is what the text goes on with at the token, beginning with its first
character. Shown are the line before, if there is one, this line with a mark between `u` and `v`,
and the line after, if there is one. -/
theorem snippets_point_at_their_tokens (ops : OperatorTable) (source : Source) (strict : Bool)
    (n : Nat) (t : Token)
    (ht : ((Lexer.ofCode source.code strict).pulled ops source n).token? = some t) :
    ∃ before u v after,
      (∀ lines, IsLines source.code.toList lines ↔ lines = before ++ (u ++ v) :: after) ∧
      before.length = t.place.line ∧ u.length = t.place.column ∧
      v.toList <+: source.code.toList.drop t.place.pos ∧
      v ≠ "" ∧ v.toList.head? = t.spelled.head? ∧
      snippet source.code t.place =
        before.getLast?.toList ++ (u ++ " HERE>> " ++ v) :: after.head?.toList := by
  -- The token stands at the next character behind what has been read and the blanks.
  have hstart : (Lexer.ofCode source.code strict).StandsIn source.code.toList := ⟨[], rfl, rfl⟩
  have hstands : ((Lexer.ofCode source.code strict).afterPulls ops source n).StandsIn
      source.code.toList :=
    Lexer.afterPulls_induct (fun _ h => h.next) hstart n
  obtain ⟨c, rest, hrest, hplace, hhead⟩ := (Lexer.pulls_of_next rfl).reports ht
  obtain ⟨read, hread, hafter⟩ := hstands.skipBlanks
  have hblank := Lexer.isBlank_of_skipBlanks hrest
  rw [hrest] at hread
  rw [hafter] at hplace
  have hfeed : c ≠ '\n' := by
    rintro rfl
    cases hblank
  have hreturn : c ≠ '\r' := by
    rintro rfl
    cases hblank
  obtain ⟨u, v, hline, hu, hv⟩ := getElem?_linesFrom hfeed hreturn read rest [] .start rfl
  rw [← hread] at hline
  have hlines : (Text.lines source.code)[t.place.line]? =
      some (String.ofList u ++ String.ofList (c :: v)) := by
    rw [Text.lines, List.getElem?_map, hplace, Place.line_after, Place.start, Nat.zero_add, hline,
      Option.map_some, String.ofList_append]
  obtain ⟨hlt, hget⟩ := List.getElem?_eq_some_iff.mp hlines
  have hsplit := (List.take_append_drop t.place.line (Text.lines source.code)).symm
  rw [List.drop_eq_getElem_cons hlt, hget] at hsplit
  have hbefore : ((Text.lines source.code).take t.place.line).length = t.place.line :=
    List.length_take_of_le (Nat.le_of_lt hlt)
  have hcolumn : (String.ofList u).length = t.place.column := by
    rw [String.length_ofList, hu, hplace]
  refine ⟨_, String.ofList u, String.ofList (c :: v), _, ?_, hbefore, hcolumn, ?_, by simp, ?_,
    snippet_of_lines hsplit hbefore hcolumn⟩
  · intro lines
    rw [isLines_iff, ← hsplit]
  · rw [hplace, Place.pos_after_start, hread, List.drop_left, String.toList_ofList]
    exact List.cons_prefix_cons.mpr ⟨rfl, hv⟩
  · rw [hhead, String.toList_ofList]
    rfl

namespace OpenQuote

def operators : OperatorTable := .ofSpellings ["=", ";"]

/-- A text with both kinds of line ends, an empty line and a quote that nothing closes. -/
def source : Source := ⟨"é = 1;\r\n\r\n  'ü\nb", none⟩

/-- What the quote is reported as. -/
def quote : Token := ⟨.text, "ü\nb", ⟨12, 2, 2⟩⟩

end OpenQuote

open OpenQuote in
/-- The quote is shown between the empty line and the last one. -/
theorem an_open_quote_is_shown :
    snippet source.code quote.place = ["", "   HERE>> 'ü", "b"] ∧
    ((Lexer.ofCode source.code true).pulled operators source 4).token? = some quote ∧
    ∃ before u v after,
      (∀ lines, IsLines source.code.toList lines ↔ lines = before ++ (u ++ v) :: after) ∧
      before.length = quote.place.line ∧ u.length = quote.place.column ∧
      v.toList <+: source.code.toList.drop quote.place.pos ∧
      v ≠ "" ∧ v.toList.head? = quote.spelled.head? ∧
      snippet source.code quote.place =
        before.getLast?.toList ++ (u ++ " HERE>> " ++ v) :: after.head?.toList := by
  have hquote : ((Lexer.ofCode source.code true).pulled operators source 4).token? =
      some quote := by decide +kernel
  exact ⟨by decide, hquote,
    snippets_point_at_their_tokens operators source true 4 quote hquote⟩

end TickScript
