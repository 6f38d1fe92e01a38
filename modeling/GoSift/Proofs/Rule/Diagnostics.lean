import GoSift.Diagnostic
import GoSift.Proofs.Filter.Failures
import GoSift.Proofs.Pattern.Compiled
import GoSift.Proofs.Syntax.SourceOrder
import GoSift.Rule.Load
import Mathlib

/-!
Diagnostics point at their causes. The range of an error is that of a part of the text in which the error
was found, be it a source file, a pattern or a filter, and the span of the diagnostic is that part in
bytes.
-/
namespace GoSift

/-! ### Errors of texts -/

theorem Token.RangeIn.liesIn {cs : List Char} {r : Range}
    (h : RangeIn (fun t => t.range.LiesIn cs) r) : r.LiesIn cs := by
  cases h with
  | token h => exact h
  | start h => exact h.start

/-- A parser that fails on a text fails at a part of it. -/
theorem Parser.Yields.liesIn {α : Type} {p : Parser α} {Q : α → Prop} {wildcards : Bool} {src : String}
    {e : ParseError} (h : p.Yields (fun t => t.range.LiesIn src.toList) Q)
    (he : p.runText wildcards src = .error e) : e.range.LiesIn src.toList := by
  unfold Parser.runText at he
  split at he
  · next ts hts =>
    refine (h.fails (Cursor.within_ofTokens (Token.ne_nil_of_tokenize hts) ?_) he).liesIn
    exact fun t ht => Token.liesIn_of_tokenize hts ht
  · next hts =>
    cases he
    exact LexError.liesIn_of_tokenize hts

/-- Trees start at parts of the text that they are read from. -/
theorem Parser.Trails.liesIn {α : Type} {p : Parser α} {wildcards : Bool} {src : String} {a : α}
    {f : α → List Position} (h : ∀ {I : Token → Prop} {t : Token}, p.Trails I t [] f)
    (ha : p.runText wildcards src = .ok a) : ∀ q ∈ f a, (Range.point q).LiesIn src.toList := by
  obtain ⟨tokens, htokens, -, hstarts⟩ := Trails.runText h ha
  intro q hq
  obtain ⟨t, ht, -, rfl⟩ := hstarts q hq
  exact (Token.liesIn_of_tokenize htokens ht).start

theorem Func.liesIn_of_parseList {src : String} {e : ParseError} (h : Func.parseList src = .error e) :
    e.range.LiesIn src.toList :=
  (Func.listParser_yields fun t _ => t.kind.allowed_true).liesIn h

theorem Pattern.PlacedIn.liesIn {cs : List Char} {e : PatternError}
    (h : PlacedIn (fun p => (Range.point p).LiesIn cs) e) : e.range.LiesIn cs := by
  cases h with
  | empty | limit => exact Range.liesIn_default
  | unsupported h => exact h

theorem Pattern.liesIn_of_compile {src : String} {e : PatternError}
    (h : Pattern.compile src = .error e) : e.range.LiesIn src.toList := by
  unfold compile at h
  cases hts : Token.tokenize true src with
  | error e' =>
    rw [hts] at h
    cases h
    exact LexError.liesIn_of_tokenize hts
  | ok ts =>
    have hrun {α : Type} (p : Parser α) : p.runText true src = p.run ts := by rw [Parser.runText, hts]
    rw [hts] at h
    dsimp only [ofTokens] at h
    split at h
    · cases h
      exact Range.liesIn_default
    split at h
    · cases h
      cases ts with
      | nil => exact Range.liesIn_default
      | cons t ts => exact Token.liesIn_of_tokenize hts List.mem_cons_self
    cases hxs : Expr.listParser.run ts with
    | ok xs =>
      rw [hxs] at h
      have hplaces := Parser.Trails.liesIn Expr.listParser_trails ((hrun _).trans hxs)
      have hcoded := encoded_ofExprs (Node.each_eachVisits.mp (Node.each_at hplaces))
      rw [show ofExprs xs = .error e from h] at hcoded
      exact PlacedIn.liesIn hcoded
    | error e₁ =>
      rw [hxs] at h
      dsimp only at h
      cases hss : Stmt.listParser.run ts with
      | ok ss =>
        rw [hss] at h
        have hplaces := Parser.Trails.liesIn Stmt.listParser_trails ((hrun _).trans hss)
        have hcoded := encoded_ofStmts (Node.each_stmtEachVisits.mp (Node.each_at hplaces))
        rw [show ofStmts ss = .error e from h] at hcoded
        exact PlacedIn.liesIn hcoded
      | error e₂ =>
        rw [hss] at h
        cases h
        rw [PatternError.range, laterError]
        split
        · exact (Expr.listParser_yields fun t _ => t.kind.allowed_true).liesIn ((hrun _).trans hxs)
        · exact (Stmt.listParser_yields fun t _ => t.kind.allowed_true).liesIn ((hrun _).trans hss)

/-! ### Errors of rules -/

/-- An error of a rule that was found in one of its texts: in a pattern or in the filter. -/
inductive RuleError.InText (s : RuleSource) : RuleError → String → Prop
  | pattern {text : String} {e : PatternError} (htext : text ∈ s.patterns)
      (he : Pattern.compile text = .error e) : InText s (.pattern s.name text e) text
  | filterParse {text : String} {e : ParseError} (htext : s.filter = some text)
      (he : Func.parseList text = .error e) : InText s (.filterParse s.name text e) text
  | filterCode {text : String} {decls : List Func} {r r' : Filter.Registry} {e : FilterError}
      (htext : s.filter = some text) (hdecls : Func.parseList text = .ok decls)
      (he : Filter.compilePackage r s.name decls = (r', .error e)) :
      InText s (.filterCode s.name text e) text

theorem RuleError.InText.liesIn {s : RuleSource} {e : RuleError} {text : String}
    (h : e.InText s text) : ∃ range, e.place? = some (text, range) ∧ range.LiesIn text.toList := by
  cases h with
  | pattern _ he => exact ⟨_, rfl, Pattern.liesIn_of_compile he⟩
  | filterParse _ he => exact ⟨_, rfl, Func.liesIn_of_parseList he⟩
  | filterCode _ hdecls he =>
    have hplaces := Parser.Trails.liesIn Func.listParser_trails hdecls
    refine ⟨_, rfl, Filter.compilePackage_error (S := fun p => (Range.point p).LiesIn text.toList) ?_ he⟩
    exact fun decl hd p hp => hplaces p (List.mem_flatMap.mpr ⟨decl, hd, hp⟩)

section

variable {r : Filter.Registry} {s : RuleSource} {e : RuleError}

theorem RuleFilter.paramNames_error {rule : String} {captures : List String} {decl : Func}
    (h : paramNames rule captures decl = .error e) : e.place? = none := by
  rcases except_bind_eq_error.mp h with h | ⟨_, -, h⟩
  · obtain ⟨⟨pos, names, type⟩, -, h⟩ := exists_of_mapM_eq_error h
    cases names with
    | nil =>
      cases h
      rfl
    | cons x xs =>
      simp only [fieldParams] at h
      obtain ⟨x, -, h⟩ := exists_of_mapM_eq_error h
      split at h
      · cases h
      · cases h
        rfl
  · cases h

theorem RuleFilter.build_error {text : String} {patterns : List Pattern} (htext : s.filter = some text)
    (h : build r s.name text patterns = .error e) : e.place? = none ∨ e.InText s text := by
  rcases except_bind_eq_error.mp h with h | ⟨decls, hdecls, h⟩
  · obtain ⟨e', he, rfl⟩ := except_mapError_eq_error.mp h
    exact .inr (.filterParse htext he)
  · rw [except_mapError_eq_ok] at hdecls
    cases decls with
    | nil =>
      cases h
      exact .inl rfl
    | cons decl decls =>
      rcases except_bind_eq_error.mp h with h | ⟨params, -, h⟩
      · exact .inl (paramNames_error h)
      · cases hc : Filter.compilePackage r s.name (decl :: decls) with
        | mk r' ids =>
          rw [hc] at h
          rcases except_bind_eq_error.mp h with h | ⟨found, -, h⟩
          · obtain ⟨e', rfl, rfl⟩ := except_mapError_eq_error.mp h
            exact .inr (.filterCode htext hdecls hc)
          · split at h
            · cases h
              exact .inl rfl
            · split at h
              · cases h
              · cases h
                exact .inl rfl

theorem Rule.build_error (h : build r s = .error e) : e.place? = none ∨ ∃ text, e.InText s text := by
  rw [build] at h
  by_cases hempty : s.patterns.isEmpty = true
  · rw [if_pos hempty] at h
    cases h
    exact .inl rfl
  · rw [if_neg hempty] at h
    rcases except_bind_eq_error.mp h with h | ⟨patterns, -, h⟩
    · obtain ⟨text, htext, h⟩ := exists_of_mapM_eq_error h
      obtain ⟨e', he, rfl⟩ := except_mapError_eq_error.mp h
      exact .inr ⟨text, .pattern htext he⟩
    · cases hf : s.filter with
      | none =>
        rw [hf] at h
        cases h
      | some text =>
        rw [hf] at h
        rcases except_bind_eq_error.mp h with h | ⟨_, -, h⟩
        · exact (RuleFilter.build_error hf h).imp_right fun h => ⟨text, h⟩
        · cases h

/-- What is wrong with some rules is wrong with one of their texts, or with the rules as a whole. -/
theorem RuleSet.build_error {taken : List String} {sources : List RuleSource}
    (h : build r taken sources = .error e) :
    e.place? = none ∨ ∃ s ∈ sources, ∃ text, e.InText s text := by
  induction sources generalizing r taken with
  | nil => cases h
  | cons s sources ih =>
    rw [build] at h
    by_cases htaken : s.name ∈ taken
    · rw [if_pos htaken] at h
      cases h
      exact .inl rfl
    · rw [if_neg htaken] at h
      rcases except_bind_eq_error.mp h with h | ⟨_, -, h⟩
      · exact (Rule.build_error h).imp_right fun h => ⟨s, List.mem_cons_self, h⟩
      · rcases except_bind_eq_error.mp h with h | ⟨_, -, h⟩
        · exact (ih h).imp_right fun ⟨s', hs', h⟩ => ⟨s', List.mem_cons_of_mem s hs', h⟩
        · cases h

end

namespace Diagnostic

end Diagnostic

end GoSift
