import GoSift.Pattern.Source
import GoSift.Proofs.Pattern.PlaceBlind
import GoSift.Proofs.Syntax.Totality
import Mathlib.Data.List.Forall2

/-!
Formatting does not matter. Sources with the same kinds of tokens, line ends that end statements among
them, are parsed alike, and patterns find the same in them.
-/
namespace GoSift

/-- Texts whose tokens are of the same kinds are files alike, or neither of them is one. -/
theorem File.map_erase_parse {src src' : String} {ts ts' : List Token}
    (hts : Token.tokenize false src = .ok ts) (hts' : Token.tokenize false src' = .ok ts')
    (hkinds : ts.map Token.kind = ts'.map Token.kind) :
    (File.parse src).toOption.map File.erase = (File.parse src').toOption.map File.erase := by
  have hrun : ∀ {src ts}, Token.tokenize false src = .ok ts → File.parse src = File.parser.run ts := by
    intro src ts hts
    rw [File.parse, Parser.runText, hts]
  rw [hrun hts, hrun hts', Grammar.erase_file (Token.closed_of_tokenize hts).terminated,
    Grammar.erase_file (Token.closed_of_tokenize hts').terminated, Token.map_erase_eq hkinds]

theorem forall₂_of_map_eq {α β : Type} {e : α → β} {xs ys : List α} (h : xs.map e = ys.map e) :
    List.Forall₂ (fun x y => e x = e y) xs ys := by
  rwa [← List.forall₂_eq_eq_eq, List.forall₂_map_left_iff, List.forall₂_map_right_iff] at h

namespace Pattern.Match

/-- Matches that differ in places only. -/
structure Alike (m m' : Match) : Prop where
  node : m.node.same m'.node
  window : m.window = m'.window
  captures : List.Forall₂ (fun c c' => c.name = c'.name ∧ c.node.same c'.node) m.captures m'.captures

theorem alike_of_erase_eq {m m' : Match} (h : m.erase = m'.erase) : m.Alike m' := by
  obtain ⟨hnode, hwindow, hcaptures⟩ := Match.mk.inj h
  refine ⟨(Node.same_iff _ _).mpr hnode, hwindow, ?_⟩
  refine (forall₂_of_map_eq hcaptures).imp fun c c' hc => ?_
  obtain ⟨hname, hnode⟩ := Capture.mk.inj hc
  exact ⟨hname, (Node.same_iff _ _).mpr hnode⟩

end Pattern.Match

/-- Two files that differ in places only have the same matches, places apart. -/
theorem Pattern.findInFile_alike (p : Pattern) {f f' : File} (h : f.erase = f'.erase) :
    List.Forall₂ Match.Alike (p.findInFile f) (p.findInFile f') := by
  have hmap : (p.findInFile f).map Match.erase = (p.findInFile f').map Match.erase := by
    rw [← findInFile_erase, h, findInFile_erase]
  exact (forall₂_of_map_eq hmap).imp fun _ _ => Match.alike_of_erase_eq

/-- Of two texts whose tokens are of the same kinds, wherever they stand, one is a file if and only if
the other is, and then the files are equal but for places. Every pattern has as many matches in one as
in the other, in the same order, and they differ in places only. -/
theorem Pattern.formatting_unseen {src src' : String} {ts ts' : List Token}
    (hts : Token.tokenize false src = .ok ts) (hts' : Token.tokenize false src' = .ok ts')
    (hkinds : ts.map Token.kind = ts'.map Token.kind) :
    ((∃ f, File.parse src = .ok f) ↔ ∃ f, File.parse src' = .ok f) ∧
      ∀ f f', File.parse src = .ok f → File.parse src' = .ok f' →
        f.same f' ∧
          ∀ p : Pattern, List.Forall₂ Match.Alike (p.findInFile f) (p.findInFile f') := by
  have herase := File.map_erase_parse hts hts' hkinds
  generalize File.parse src = r at herase ⊢
  generalize File.parse src' = r' at herase ⊢
  cases r with
  | error e =>
    cases r' with
    | error e' => exact ⟨⟨nofun, nofun⟩, nofun⟩
    | ok f' => cases herase
  | ok f =>
    cases r' with
    | error e' => cases herase
    | ok f' =>
      have hfiles : f.erase = f'.erase := Option.some.inj herase
      refine ⟨⟨fun _ => ⟨f', rfl⟩, fun _ => ⟨f, rfl⟩⟩, ?_⟩
      rintro _ _ ⟨⟩ ⟨⟩
      exact ⟨(File.same_iff f f').mpr hfiles, fun p => p.findInFile_alike hfiles⟩

/-- A function over several lines, with a comment. -/
def spacious : String :=
  "package p\n\nfunc f() \x7b\n\ta = a // again\n\x7d\n"

/-- The same function on one line. -/
def dense : String :=
  "package p; func f() \x7b a=a; \x7d;"

theorem kinds_spacious : (Token.tokenize false spacious).toOption.map (·.map Token.kind) =
    (Token.tokenize false dense).toOption.map (·.map Token.kind) := by
  decide +kernel

theorem found_in_spacious : ((File.parse spacious).toOption.bind fun f =>
    (Pattern.compile "$x = $x").toOption.map fun p => (p.findInFile f).length) = some 1 := by
  decide +kernel

theorem spacious_as_dense :
    ∃ ts ts' f f' p, Token.tokenize false spacious = .ok ts ∧ Token.tokenize false dense = .ok ts' ∧
      ts.map Token.kind = ts'.map Token.kind ∧ File.parse spacious = .ok f ∧
      File.parse dense = .ok f' ∧ Pattern.compile "$x = $x" = .ok p ∧ (p.findInFile f).length = 1 ∧
      f.same f' ∧ List.Forall₂ Pattern.Match.Alike (p.findInFile f) (p.findInFile f') := by
  have hfound := found_in_spacious
  simp only [Option.bind_eq_some_iff, Option.map_eq_some_iff, except_toOption_eq_some] at hfound
  obtain ⟨f, hf, p, hp, hlength⟩ := hfound
  have hkinds := kinds_spacious
  cases hts : Token.tokenize false spacious with
  | error e => simp [File.parse, Parser.runText, hts] at hf
  | ok ts =>
    rw [hts] at hkinds
    obtain ⟨ts', hts', hkinds⟩ := Option.map_eq_some_iff.mp hkinds.symm
    have hts' := except_toOption_eq_some.mp hts'
    obtain ⟨hparses, hsame⟩ := Pattern.formatting_unseen hts hts' hkinds.symm
    obtain ⟨f', hf'⟩ := hparses.mp ⟨f, hf⟩
    obtain ⟨hfiles, hmatches⟩ := hsame f f' hf hf'
    exact ⟨ts, ts', f, f', p, rfl, hts', hkinds.symm, hf, hf', hp, hlength, hfiles, hmatches p⟩

end GoSift
