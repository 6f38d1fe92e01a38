import GoSift.Command.Run
import GoSift.Proofs.Pattern.Windows
import GoSift.Proofs.Rule.Reports
import GoSift.Proofs.Syntax.Addresses

/-!
Checking a file with a rule that has one pattern and no filter finds the same places as searching it for
the pattern. The two treat matches without a place differently, and these are the matches of patterns
that consist of wildcards for runs.
-/
namespace GoSift

/-! ### Places of nodes -/

namespace Node

theorem pos?_eq_none_iff {n : Node} : n.pos? = none ↔ n.size = 0 := by
  cases n <;> simp [pos?, size]

/-- A part of a list starts where one of the elements does. -/
theorem exists_part_of_sublist {n : Node} (h : n.isList = true) {i j : Nat} {pos : Position}
    (hpos : (Pattern.sublist i j n).pos? = some pos) :
    ∃ m ∈ n.parts, m.isList = false ∧ m.pos? = some pos := by
  have helement {α : Type} {xs : List α} {place : α → Position}
      (hpos : ((xs.drop i).take (j - i)).head?.map place = some pos) : ∃ x ∈ xs, place x = pos := by
    obtain ⟨x, hx, hplace⟩ := Option.map_eq_some_iff.mp hpos
    exact ⟨x, List.mem_of_mem_drop (List.mem_of_mem_take (List.mem_of_mem_head? hx)), hplace⟩
  cases n with
  | exprs xs =>
    obtain ⟨x, hx, rfl⟩ := helement hpos
    exact ⟨.expr x, List.mem_map_of_mem hx, rfl, rfl⟩
  | stmts ss =>
    obtain ⟨s, hs, rfl⟩ := helement hpos
    exact ⟨.stmt s, List.mem_map_of_mem hs, rfl, rfl⟩
  | fields fs =>
    obtain ⟨f, hf, rfl⟩ := helement hpos
    exact ⟨.field f, List.mem_map_of_mem hf, rfl, rfl⟩
  | expr | stmt | field => cases h

end Node

namespace File

variable {file : File} {n : Node}

/-- The parts of a visited node are visited. -/
theorem mem_visits_of_mem_parts (h : n ∈ file.visits) {m : Node} (hm : m ∈ n.parts) :
    m ∈ file.visits := by
  obtain ⟨hsolid, hin⟩ := visits_sublist h
  apply hin.subset
  rw [Node.visits_eq hsolid]
  refine List.mem_cons_of_mem n (List.mem_flatMap.mpr ⟨m, hm, ?_⟩)
  rw [Node.visits_eq (n.solid_parts m hm)]
  exact .head _

end File

/-! ### Places of matches -/

namespace Pattern

variable {p : Pattern} {tree n : Node} {m : Match} {file : File}

theorem node_of_matchNode? (h : p.isList = false) (hm : p.matchNode? n = some m) :
    n.isList = false ∧ m.node = n := by
  rw [matchNode?, except_toOption_eq_some, matchNode] at hm
  split at hm
  · split at hm <;> cases hm
  · rw [h] at hm
    cases hn : n.isList with
    | true =>
      rw [hn] at hm
      cases hm
    | false =>
      rw [hn] at hm
      refine ⟨rfl, ?_⟩
      cases hterm : matchTerm p.strings p.insts.length n p.start with
      | error e =>
        simp only [hterm, Bool.false_eq_true, if_false] at hm
        cases hm
      | ok s =>
        simp only [hterm, Bool.false_eq_true, if_false] at hm
        cases hm
        rfl

/-- A match is the visited node itself, if that is no list, or a window of a list. -/
theorem mem_matchesAt (h : m ∈ p.matchesAt n) :
    p.isList = false ∧ n.isList = false ∧ m.node = n ∨
      p.isList = true ∧ n.isList = true ∧ ∃ i, p.matchFrom? n i = some m := by
  rw [matchesAt] at h
  cases hp : p.isList with
  | false =>
    simp only [hp, Bool.false_eq_true, if_false, Option.mem_toList] at h
    exact .inl ⟨rfl, node_of_matchNode? hp h⟩
  | true =>
    cases hn : n.isList with
    | false => simp [hp, hn] at h
    | true =>
      simp only [hp, hn, if_true] at h
      exact .inr ⟨rfl, rfl, exists_of_mem_windowsFrom h⟩

/-- The matches without a place are those of patterns that consist of wildcards for runs. -/
theorem Encodes.pos?_eq_none_iff (h : p.Encodes tree) (hm : m ∈ p.findInFile file) :
    m.node.pos? = none ↔ p.runsOnly = true := by
  obtain ⟨n, -, hm⟩ := List.mem_flatMap.mp hm
  rw [Node.pos?_eq_none_iff]
  obtain ⟨hp, hn, hnode⟩ | ⟨hp, -, i, hi⟩ := mem_matchesAt hm
  · have hsize : n.size ≠ 0 := by cases n <;> first | exact Nat.one_ne_zero | cases hn
    simp [runsOnly, hp, hnode, hsize]
  · exact h.size_matchFrom? hp hi

/-- A pattern of wildcards for runs is found just if a list of its kind is visited. -/
theorem Encodes.exists_mem_findInFile_iff (h : p.Encodes tree) (hp : p.runsOnly = true) :
    (∃ m, m ∈ p.findInFile file) ↔ ∃ n ∈ file.visits, p.suits n = true := by
  have hlist : p.isList = true := (Bool.and_eq_true_iff.mp hp).1
  constructor
  · rintro ⟨m, hm⟩
    obtain ⟨n, hn, hm⟩ := List.mem_flatMap.mp hm
    obtain ⟨hsingle, -⟩ | ⟨-, -, i, hi⟩ := mem_matchesAt hm
    · exact absurd hlist (by simp [hsingle])
    · obtain ⟨-, root, code, _, _, hcode, hroot, -⟩ := matchFrom?_eq_some hi
      exact ⟨n, hn, by simpa [suits, hcode] using hroot⟩
  · rintro ⟨n, hn, hsuits⟩
    obtain ⟨m, hm⟩ := h.exists_matchFrom? hp hsuits (File.visits_sublist hn).1
    obtain ⟨-, root, code, _, _, -, hroot, -⟩ := matchFrom?_eq_some hm
    refine ⟨m, List.mem_flatMap.mpr ⟨n, hn, ?_⟩⟩
    rw [matchesAt, if_pos hlist, if_pos (isList_of_isRootOf hroot)]
    exact mem_windows_of_matchFrom? hm

/-- A match that has a place starts where a visited node does that is no list. -/
theorem exists_visited_start (hm : m ∈ p.findInFile file) {pos : Position}
    (hpos : m.node.pos? = some pos) : ∃ n ∈ file.visits, n.isList = false ∧ n.pos? = some pos := by
  obtain ⟨n, hn, hm⟩ := List.mem_flatMap.mp hm
  obtain ⟨-, hsingle, rfl⟩ | ⟨-, hlist, i, hi⟩ := mem_matchesAt hm
  · exact ⟨m.node, hn, hsingle, hpos⟩
  · obtain ⟨-, -, -, _, _, -, -, -, rfl⟩ := matchFrom?_eq_some hi
    obtain ⟨part, hpart, hsingle, hstart⟩ := Node.exists_part_of_sublist hlist hpos
    exact ⟨part, File.mem_visits_of_mem_parts hn hpart, hsingle, hstart⟩

end Pattern

/-! ### Places of reports -/

def Report.place (a : Report) : Position :=
  ⟨a.line, a.column⟩

/-- Arranging reports keeps their places. -/
theorem Report.mem_places_arrange {rs : List Report} {pos : Position} :
    pos ∈ (arrange rs).map place ↔ pos ∈ rs.map place := by
  simp only [List.mem_map]
  constructor
  · rintro ⟨a, ha, hpos⟩
    exact ⟨a, mem_of_mem_arrange ha, hpos⟩
  · rintro ⟨a, ha, rfl⟩
    obtain ⟨b, hb⟩ : ∃ b, rs.find? (·.key = a.key) = some b :=
      Option.isSome_iff_exists.mp (List.find?_isSome.mpr ⟨a, ha, by simp⟩)
    have hmem : b ∈ withKey a.key (arrange rs) := by simp [withKey_arrange, hb]
    obtain ⟨hb, hkey⟩ := mem_withKey.mp hmem
    exact ⟨b, hb, (keyAt_eq_iff.mp hkey).1⟩

/-- The rule with one pattern and no filter. -/
def Rule.unfiltered (name report : String) (suggest : Option String) (p : Pattern) : Rule :=
  ⟨name, [p], none, report, suggest⟩

theorem Command.mem_places_grep {p : Pattern} {file : File} {pos : Position} :
    pos ∈ (grep p file).map Report.place ↔ ∃ m ∈ p.findInFile file, m.node.pos? = some pos := by
  have hplace : ∀ m, (grepReport? m).map Report.place = m.node.pos? := by
    intro m
    rw [grepReport?, Option.map_map]
    exact Option.map_id'
  simp only [grep, List.map_filterMap, List.mem_filterMap, hplace]

namespace RuleSet

variable {src name report : String} {suggest : Option String} {p : Pattern} {file : File}

theorem ofSources_unfiltered (h : Pattern.compile src = .ok p) :
    ofSources [⟨name, [src], report, none, suggest⟩] =
      .ok ⟨[.unfiltered name report suggest p], .standard⟩ := by
  simp [ofSources, build, Rule.build, h, Rule.unfiltered, bind, Except.bind, pure, Except.pure,
    Except.mapError]

theorem judged_of_unfiltered {r : Filter.Registry} {stack : Filter.Stack}
    {ms : List (Rule × Pattern.Match)} (h : ∀ a ∈ ms, a.1.filter = none) :
    Judged r stack ms ms := by
  induction ms with
  | nil => exact .nil
  | cons a ms ih =>
    obtain ⟨ha, hms⟩ := List.forall_mem_cons.mp h
    exact .unfiltered ha (ih hms)

theorem candidates_unfiltered {r : Filter.Registry} :
    (⟨[.unfiltered name report suggest p], r⟩ : RuleSet).candidates file =
      (p.findInFile file).map (.unfiltered name report suggest p, ·) := by
  rw [candidates, Pattern.findInFile, List.map_flatMap]
  refine List.flatMap_congr fun n _ => ?_
  simp [matchesAt, Rule.unfiltered]

theorem run_unfiltered {r : Filter.Registry} :
    (⟨[.unfiltered name report suggest p], r⟩ : RuleSet).run file =
      .ok (Report.arrange
        ((p.findInFile file).map (.ofMatch (.unfiltered name report suggest p)))) := by
  have hjudged : Judged r [] ((p.findInFile file).map (.unfiltered name report suggest p, ·))
      ((p.findInFile file).map (.unfiltered name report suggest p, ·)) := by
    apply judged_of_unfiltered
    rw [List.forall_mem_map]
    exact fun _ _ => rfl
  rw [← candidates_unfiltered (r := r)] at hjudged
  rw [run_eq_of_judged hjudged, candidates_unfiltered, List.map_map]
  rfl

/-- A rule with one pattern and no filter loads and runs, each of its reports is about a match of the
pattern, and its reports stand at the places of a search for the pattern, all of which are starts of
visited nodes. Only a pattern that consists of wildcards for runs makes a difference. A search for it has
no results; the rule reports the start of the file once some list of its kind is visited. -/
theorem run_places_eq_grep (hp : Pattern.compile src = .ok p) (name report : String)
    (suggest : Option String) (file : File) :
    ∃ rs reports, ofSources [⟨name, [src], report, none, suggest⟩] = .ok rs ∧
      rs.run file = .ok reports ∧
      (∀ a ∈ reports, ∃ m ∈ p.findInFile file, a.place = m.place ∧ a.matched = m.node.text) ∧
      (∀ pos ∈ (Command.grep p file).map Report.place,
        ∃ n ∈ file.visits, n.isList = false ∧ n.pos? = some pos) ∧
      (p.runsOnly = false →
        ∀ pos, pos ∈ reports.map Report.place ↔ pos ∈ (Command.grep p file).map Report.place) ∧
      (p.runsOnly = true → Command.grep p file = [] ∧
        ∀ pos, pos ∈ reports.map Report.place ↔
          pos = ⟨1, 1⟩ ∧ ∃ n ∈ file.visits, p.suits n = true) := by
  obtain ⟨tree, -, htree⟩ := Pattern.exists_tree_of_compile hp
  have hplaces : ∀ pos, pos ∈ (Report.arrange ((p.findInFile file).map
      (.ofMatch (.unfiltered name report suggest p)))).map Report.place ↔
      ∃ m ∈ p.findInFile file, m.place = pos := by
    intro pos
    rw [Report.mem_places_arrange, List.map_map, List.mem_map]
    rfl
  refine ⟨_, _, ofSources_unfiltered hp, run_unfiltered, ?_, ?_, ?_, ?_⟩
  · intro a ha
    obtain ⟨m, hm, rfl⟩ := List.mem_map.mp (Report.mem_of_mem_arrange ha)
    exact ⟨m, hm, rfl, rfl⟩
  · intro pos hpos
    obtain ⟨m, hm, hpos⟩ := Command.mem_places_grep.mp hpos
    exact Pattern.exists_visited_start hm hpos
  · intro hruns pos
    rw [hplaces, Command.mem_places_grep]
    refine exists_congr fun m => and_congr_right fun hm => ?_
    have hsome : m.node.pos? ≠ none := by simp [htree.pos?_eq_none_iff hm, hruns]
    obtain ⟨place, hplace⟩ := Option.ne_none_iff_exists'.mp hsome
    simp [Pattern.Match.place, hplace]
  · intro hruns
    have hnone : ∀ m ∈ p.findInFile file, m.node.pos? = none :=
      fun m hm => (htree.pos?_eq_none_iff hm).mpr hruns
    refine ⟨List.filterMap_eq_nil_iff.mpr fun m hm => ?_, fun pos => ?_⟩
    · rw [Command.grepReport?, hnone m hm]
      rfl
    · rw [hplaces, ← htree.exists_mem_findInFile_iff hruns]
      constructor
      · rintro ⟨m, hm, rfl⟩
        exact ⟨by rw [Pattern.Match.place, hnone m hm]; rfl, m, hm⟩
      · rintro ⟨rfl, m, hm⟩
        exact ⟨m, hm, by rw [Pattern.Match.place, hnone m hm]; rfl⟩

/-- Several assignments, one after the other and nested. -/
def assignments : String :=
  "package p; func f() \x7b a = b; if a \x7b b, c = c, b; g() \x7d; g(a, b) \x7d"

theorem assignments_places_eq_grep :
    ∃ p file, Pattern.compile "$_, $*_" = .ok p ∧ File.parse assignments = .ok file ∧
      p.runsOnly = false ∧
      (Command.grep p file).map Report.place =
        [⟨1, 23⟩, ⟨1, 27⟩, ⟨1, 37⟩, ⟨1, 40⟩, ⟨1, 44⟩, ⟨1, 47⟩, ⟨1, 59⟩, ⟨1, 62⟩] ∧
      ∃ rs reports, ofSources [⟨"pair", ["$_, $*_"], "found", none, none⟩] = .ok rs ∧
        rs.run file = .ok reports ∧
        ∀ pos, pos ∈ reports.map Report.place ↔ pos ∈ (Command.grep p file).map Report.place := by
  have hrun : ((Pattern.compile "$_, $*_").toOption.bind fun p =>
      (File.parse assignments).toOption.map fun file =>
        (p.runsOnly, (Command.grep p file).map Report.place)) =
      some (false, [⟨1, 23⟩, ⟨1, 27⟩, ⟨1, 37⟩, ⟨1, 40⟩, ⟨1, 44⟩, ⟨1, 47⟩, ⟨1, 59⟩, ⟨1, 62⟩]) := by
    decide +kernel
  simp only [Option.bind_eq_some_iff, Option.map_eq_some_iff, except_toOption_eq_some,
    Prod.mk.injEq] at hrun
  obtain ⟨p, hp, file, hfile, hruns, hplaces⟩ := hrun
  obtain ⟨rs, reports, hrs, hreports, -, -, hagree, -⟩ :=
    run_places_eq_grep hp "pair" "found" none file
  exact ⟨p, file, hp, hfile, hruns, hplaces, rs, reports, hrs, hreports, hagree hruns⟩

/-- A pattern of wildcards for runs is reported at the start of the file, where no node is, while a
search for it finds nothing. -/
theorem run_reports_empty_match :
    ∃ p file rs reports, Pattern.compile "$*_, $*_" = .ok p ∧
      File.parse "package p\nfunc f() \x7b g(a) \x7d" = .ok file ∧
      ofSources [⟨"r", ["$*_, $*_"], "r", none, none⟩] = .ok rs ∧ rs.run file = .ok reports ∧
      reports.map Report.place = [⟨1, 1⟩] ∧ Command.grep p file = [] ∧
      ∀ n ∈ file.visits, n.pos? ≠ some ⟨1, 1⟩ := by
  have hrun : ((Pattern.compile "$*_, $*_").toOption.bind fun p =>
      (File.parse "package p\nfunc f() \x7b g(a) \x7d").toOption.bind fun file =>
        (ofSources [⟨"r", ["$*_, $*_"], "r", none, none⟩]).toOption.bind fun rs =>
          (rs.run file).toOption.map fun reports =>
            (reports.map Report.place, Command.grep p file,
              file.visits.all (·.pos? ≠ some ⟨1, 1⟩))) = some ([⟨1, 1⟩], [], true) := by decide +kernel
  simp only [Option.bind_eq_some_iff, Option.map_eq_some_iff, except_toOption_eq_some,
    Prod.mk.injEq, List.all_eq_true, decide_eq_true_eq] at hrun
  obtain ⟨p, hp, file, hfile, rs, hrs, reports, hreports, hplaces, hgrep, hvisits⟩ := hrun
  exact ⟨p, file, rs, reports, hp, hfile, hrs, hreports, hplaces, hgrep, hvisits⟩

end RuleSet

end GoSift
