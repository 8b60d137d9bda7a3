-- A script that is printed and read again comes to the same tree, up to its sites.
import Mathlib
import TickScript.Proofs.ReadingBack
import TickScript.Proofs.Tables

namespace TickScript

/-! ## Scripts that are printed -/

theorem legal_of_tokenize {ops : OperatorTable} {known : List String} (hops : ops.Knows known)
    {source : Source} {tokens : List Token} (h : tokenize ops source = .ok tokens) :
    ∀ t ∈ tokens, t.lexeme.Legal known := by
  obtain ⟨others, ending, hemits⟩ :=
    Lexer.exists_emits ops source (.ofCode source.code true) rfl
  rw [tokenize_of_emits hemits] at h
  cases ending with
  | some f => cases h
  | none =>
    cases h
    exact hemits.legal hops rfl

/-- The tree of a script that is read can be read. -/
theorem Script.readable_of_read {lang : Language} {known : List String}
    (hknows : lang.operators.Knows known) (hregular : lang.Regular) {source : Source}
    {script : Script} (h : Script.read lang source = .ok script) :
    script.root.Readable lang known false := by
  obtain ⟨tokens, last, p, htokens, _, hp, rfl⟩ := Script.read_eq_ok_iff.mp h
  obtain ⟨taken, rfl, hspans, _⟩ := (Reader.takes _ _).expression hp
  rw [List.append_nil] at htokens
  exact hspans.readable hregular (legal_of_tokenize hknows htokens)

/-- What is written with the lexemes of a printed tree is read as that tree. -/
theorem Script.read_of_written {lang : Language} {known : List String}
    (hknows : lang.operators.Knows known) {e : Expr} (he : e.Readable lang known false)
    (hheight : e.height ≤ maxNesting / 2) {xs : List Lexeme} (hxs : e.Prints xs)
    {source : Source} (hsource : Written known xs source.code.toList) :
    ∃ script, Script.read lang source = .ok script ∧ script.root.forget = e.forget := by
  refine Script.read_of_lexemes (P := fun root => root.forget = e.forget) hknows hsource
    (e.legal_of_prints he hxs) (Expr.coherent_of_prints he hxs) fun last ts hts => ?_
  obtain ⟨p, hp, hregains⟩ := Reader.readsBack_of_prints (g := ⟨lang, source, last⟩) e he hxs
    ts [] (2 * ts.length + 2) 0 hts nofun (by omega) (by omega)
  exact ⟨p, hp, hregains.same⟩

/-- Reading, printing and reading again comes to the same tree, for every language that a host
builds and every script with at most half of the levels that a tree may have. A tree is printed
with parentheses around each operand, statement and body, and with numerals as one likes. The
blanks are free too, as long as no operator runs on into what follows; none does if no operator is
spelled with a parenthesis or a blank. -/
theorem printing_reads_back (rs : List Registration) (source : Source) {script : Script}
    (hread : Script.read (Language.built rs) source = .ok script)
    (hheight : script.root.height ≤ maxNesting / 2) :
    (∃ xs, script.root.Prints xs ∧ Written [] xs (xs.flatMap Lexeme.spelled)) ∧
    ∀ xs, script.root.Prints xs → ∀ printed : Source,
      Written (spellings rs) xs printed.code.toList ∨
        PlainSpellings (spellings rs) ∧ Written [] xs printed.code.toList →
      ∃ again, Script.read (Language.built rs) printed = .ok again ∧
        again.root.forget = script.root.forget := by
  have hknows := Language.knows_built rs
  have hreadable := Script.readable_of_read hknows (Language.regular_built rs) hread
  obtain ⟨ys, hys⟩ := script.root.exists_prints hreadable
  refine ⟨⟨ys, hys, written_flatMap ys⟩, fun xs hxs printed hprinted => ?_⟩
  have hwritten : Written (spellings rs) xs printed.code.toList := by
    rcases hprinted with hwritten | ⟨hplain, hspaced⟩
    · exact hwritten
    · exact hspaced.of_plain hplain (script.root.legal_of_prints hreadable hxs)
        (Expr.coherent_of_prints hreadable hxs)
  exact Script.read_of_written hknows hreadable hheight hxs hwritten

/-- A definition whose body assigns to a list, and a call of it. -/
theorem a_definition_is_read_back :
    let source : Source := ⟨"f(a)->l(b,c)=-a;f('x')", none⟩
    let printed : Source := ⟨"(f(a)->((l(b,c))=(-(a))));(f('x'))", none⟩
    let tree : Expr := .sequence
      [.define "f" ["a"]
        (.binary "="
          (.call "l" [.var "b" true .nowhere, .var "c" true .nowhere] .nowhere)
          (.unary "-" (.var "a" false .nowhere) .nowhere) .nowhere) .nowhere,
        .call "f" [.text "x"] .nowhere]
    ∃ script again, Script.read Language.standard source = .ok script ∧
      Script.read Language.standard printed = .ok again ∧
      script.root.forget = tree ∧ again.root.forget = tree := by
  intro source printed tree
  have hread : (Script.read Language.standard source).toOption.map (·.root.forget) = some tree := by
    cbv
  rcases hscript : Script.read Language.standard source with f | script
  · rw [hscript] at hread
    cases hread
  rw [hscript] at hread
  have hroot : script.root.forget = tree := Option.some.inj hread
  have hheight : script.root.height ≤ maxNesting / 2 := by
    have hcounted : script.root.counted = 5 := by
      rw [← Expr.counted_forget, hroot]
      rfl
    have hbounds := script.root.counted_bounds
    have hmost : maxNesting = 200 := rfl
    omega
  obtain ⟨xs, hxs, hspelled⟩ : ∃ xs, tree.Prints xs ∧
      printed.code.toList = xs.flatMap Lexeme.spelled :=
    ⟨_, .sequence (.cons (.define (.binary (.call (.cons .var (.cons .var .nil))) (.unary .var)))
      (.cons (.call (.cons .text .nil)) .nil)), by decide⟩
  obtain ⟨rs, hstandard, hspellings⟩ := Language.standard_eq_built
  have hplain : PlainSpellings (spellings rs) := hspellings ▸ plain_standardSpellings
  rw [hstandard] at hscript ⊢
  obtain ⟨_, hprinted⟩ := printing_reads_back rs source hscript hheight
  obtain ⟨again, hagain, hsame⟩ := hprinted xs (script.root.prints_of_forget (hroot ▸ hxs)) printed
    (Or.inr ⟨hplain, hspelled ▸ written_flatMap xs⟩)
  exact ⟨script, again, rfl, hagain, hroot, hsame.trans hroot⟩

end TickScript
