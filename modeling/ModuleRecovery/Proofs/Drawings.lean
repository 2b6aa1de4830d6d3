import ModuleRecovery.Dot
import ModuleRecovery.Proofs.CouplingGraphs
import ModuleRecovery.Proofs.Json.Numbers

/-!
Drawings of coupling graphs, read back. A quoted name ends at the first quote that no backslash
escapes, and a statement tells by the character behind its first name which of the two forms it has;
so neither a name nor a line can be continued to another one. Main statement: a drawing with the
isolated classes consists of one line for each of them and one for each edge, and drawings of two
graphs under one name are equal if and only if the graphs have the same classes and weights.
-/

namespace ModuleRecovery

namespace Dot

/-- What is written can be told from any text that starts with it. -/
def IsPrefixFree {α : Type} (write : α → List Char) : Prop :=
  ∀ a b rest rest', write a ++ rest = write b ++ rest' → a = b ∧ rest = rest'

/-- Things written one after the other can be told up to a character that starts none of them. -/
theorem IsPrefixFree.flatMap_append_inj {α : Type} {write : α → List Char} {stop : Char}
    (hwrite : IsPrefixFree write) (hstop : ∀ a, ∃ c more, write a = c :: more ∧ c ≠ stop)
    {xs ys : List α} {rest rest' : List Char}
    (h : xs.flatMap write ++ stop :: rest = ys.flatMap write ++ stop :: rest') :
    xs = ys ∧ rest = rest' := by
  have hclash (x : α) (more more' : List Char) : stop :: more ≠ write x ++ more' := by
    obtain ⟨c, tail, hx, hne⟩ := hstop x
    rw [hx]
    intro heq
    exact hne (List.cons.inj heq).1.symm
  induction xs generalizing ys with
  | nil =>
      cases ys with
      | nil => exact ⟨rfl, (List.cons.inj h).2⟩
      | cons y ys =>
          rw [List.flatMap_cons, List.append_assoc] at h
          exact absurd h (hclash y _ _)
  | cons x xs ih =>
      rw [List.flatMap_cons, List.append_assoc] at h
      cases ys with
      | nil => exact absurd h.symm (hclash x _ _)
      | cons y ys =>
          rw [List.flatMap_cons, List.append_assoc] at h
          obtain ⟨rfl, hrest⟩ := hwrite x y _ _ h
          obtain ⟨rfl, hend⟩ := ih hrest
          exact ⟨rfl, hend⟩

/-! ## Names and numbers in quotes -/

/-- Every `old` of a text replaced by `new`. -/
def replace (old : Char) (new : List Char) (text : List Char) : List Char :=
  text.flatMap fun c => if c = old then new else [c]

/-- A name is quoted by doubling its backslashes first and escaping its quotes then. -/
theorem quote_eq_replace (name : ClassName) :
    quote name =
      '"' :: replace '"' ['\\', '"'] (replace '\\' ['\\', '\\'] name.toList) ++ ['"'] := by
  have hescape : name.toList.flatMap escapeChar =
      replace '"' ['\\', '"'] (replace '\\' ['\\', '\\'] name.toList) := by
    rw [replace, replace, List.flatMap_assoc]
    congr 1
    funext c
    by_cases hslash : c = '\\'
    · simp [escapeChar, hslash]
    · simp [escapeChar, hslash]
  rw [quote, hescape]

theorem isPrefixFree_escapeChar : IsPrefixFree escapeChar := by
  intro a b rest rest' h
  -- A backslash tells that a character is escaped, and the next one tells which it is.
  unfold escapeChar at h
  grind

theorem escapeChar_starts (c : Char) :
    ∃ first more, escapeChar c = first :: more ∧ first ≠ '"' := by
  unfold escapeChar
  split
  · exact ⟨'\\', _, rfl, by decide⟩
  · split
    · exact ⟨'\\', _, rfl, by decide⟩
    · rename_i hquote
      exact ⟨c, _, rfl, hquote⟩

theorem isPrefixFree_quote : IsPrefixFree quote := by
  intro a b rest rest' h
  simp only [quote, List.cons_append, List.append_assoc, List.nil_append, List.cons.injEq,
    true_and] at h
  obtain ⟨hname, hrest⟩ := isPrefixFree_escapeChar.flatMap_append_inj escapeChar_starts h
  exact ⟨String.toList_inj.1 hname, hrest⟩

theorem toDigits_append_inj {m n : Nat} {rest rest' : List Char}
    (h : Nat.toDigits 10 m ++ '"' :: rest = Nat.toDigits 10 n ++ '"' :: rest') :
    m = n ∧ rest = rest' := by
  have hsplit (n : Nat) (rest : List Char) :
      (Nat.toDigits 10 n ++ '"' :: rest).takeWhile Char.isDigit = Nat.toDigits 10 n ∧
        (Nat.toDigits 10 n ++ '"' :: rest).dropWhile Char.isDigit = '"' :: rest :=
    Json.takeWhile_append (Json.isWhole_toDigits n).isDigit _ rfl
  have hdigits : Nat.toDigits 10 m = Nat.toDigits 10 n := by
    rw [← (hsplit m rest).1, h, (hsplit n rest').1]
  have hrest : '"' :: rest = '"' :: rest' := by
    rw [← (hsplit m rest).2, h, (hsplit n rest').2]
  have hvalue := congrArg (Nat.ofDigitChars 10 · 0) hdigits
  simp only [Nat.ofDigitChars_ten_toDigits] at hvalue
  exact ⟨hvalue, (List.cons.inj hrest).2⟩

/-! ## Statements -/

/-- What a line between the braces says. -/
inductive Statement where
  | node (name : ClassName)
  | edge (edge : CouplingEdge)
  deriving DecidableEq, Repr

def Statement.node? : Statement → Option ClassName
  | node name => some name
  | edge _ => none

def Statement.edge? : Statement → Option CouplingEdge
  | node _ => none
  | edge e => some e

def Statement.line : Statement → List Char
  | node name => nodeLine name
  | edge e => edgeLine e.source e.target e.weight

theorem nodeLine_append (name : ClassName) (rest : List Char) :
    nodeLine name ++ rest = "    ".toList ++ (quote name ++ ';' :: '\n' :: rest) := by
  have hassoc (a b c : List Char) : a ++ b ++ c ++ rest = a ++ (b ++ (c ++ rest)) := by
    rw [List.append_assoc, List.append_assoc]
  exact hassoc "    ".toList (quote name) [';', '\n']

theorem edgeLine_append (source target : ClassName) (weight : Nat) (rest : List Char) :
    edgeLine source target weight ++ rest =
      "    ".toList ++ (quote source ++ ' ' :: ("-> ".toList ++ (quote target ++
        (" [label=\"".toList ++
          (Nat.toDigits 10 weight ++ '"' :: ("];\n".toList ++ rest)))))) := by
  have hassoc (a b c d e f g : List Char) : a ++ b ++ c ++ d ++ e ++ f ++ g ++ rest =
      a ++ (b ++ (c ++ (d ++ (e ++ (f ++ (g ++ rest)))))) := by
    simp only [List.append_assoc]
  exact hassoc "    ".toList (quote source) (' ' :: "-> ".toList) (quote target)
    " [label=\"".toList (Nat.toDigits 10 weight) ('"' :: "];\n".toList)

theorem nodeLine_append_inj {a b : ClassName} {rest rest' : List Char}
    (h : nodeLine a ++ rest = nodeLine b ++ rest') : a = b ∧ rest = rest' := by
  rw [nodeLine_append, nodeLine_append] at h
  obtain ⟨hname, hclose⟩ := isPrefixFree_quote _ _ _ _ (List.append_cancel_left h)
  exact ⟨hname, (List.cons.inj (List.cons.inj hclose).2).2⟩

theorem edgeLine_append_inj {source target source' target' : ClassName} {weight weight' : Nat}
    {rest rest' : List Char}
    (h : edgeLine source target weight ++ rest = edgeLine source' target' weight' ++ rest') :
    source = source' ∧ target = target' ∧ weight = weight' ∧ rest = rest' := by
  rw [edgeLine_append, edgeLine_append] at h
  obtain ⟨hsource, harrow⟩ := isPrefixFree_quote _ _ _ _ (List.append_cancel_left h)
  have hbehind := List.append_cancel_left (List.cons.inj harrow).2
  obtain ⟨htarget, hlabel⟩ := isPrefixFree_quote _ _ _ _ hbehind
  obtain ⟨hweight, hclose⟩ := toDigits_append_inj (List.append_cancel_left hlabel)
  exact ⟨hsource, htarget, hweight, List.append_cancel_left hclose⟩

/-- Behind the name of a node there is a semicolon, behind the source of an edge a blank. -/
theorem nodeLine_append_ne_edgeLine (name source target : ClassName) (weight : Nat)
    (rest rest' : List Char) :
    nodeLine name ++ rest ≠ edgeLine source target weight ++ rest' := by
  intro h
  rw [nodeLine_append, edgeLine_append] at h
  obtain ⟨-, hbehind⟩ := isPrefixFree_quote _ _ _ _ (List.append_cancel_left h)
  exact absurd (List.cons.inj hbehind).1 (by decide)

theorem isPrefixFree_line : IsPrefixFree Statement.line := by
  intro s t rest rest' h
  cases s with
  | node a =>
      cases t with
      | node b =>
          obtain ⟨rfl, hrest⟩ := nodeLine_append_inj h
          exact ⟨rfl, hrest⟩
      | edge f => exact absurd h (nodeLine_append_ne_edgeLine _ _ _ _ _ _)
  | edge e =>
      cases t with
      | node b => exact absurd h.symm (nodeLine_append_ne_edgeLine _ _ _ _ _ _)
      | edge f =>
          obtain ⟨hsource, htarget, hweight, hrest⟩ := edgeLine_append_inj h
          cases e
          cases f
          cases hsource
          cases htarget
          cases hweight
          exact ⟨rfl, hrest⟩

theorem line_starts (s : Statement) : ∃ c more, s.line = c :: more ∧ c ≠ '\x7d' := by
  cases s with
  | node name =>
      have h := nodeLine_append name []
      rw [List.append_nil] at h
      exact ⟨' ', _, h, by decide⟩
  | edge e =>
      have h := edgeLine_append e.source e.target e.weight []
      rw [List.append_nil] at h
      exact ⟨' ', _, h, by decide⟩

end Dot

namespace CouplingGraph

variable {g h : CouplingGraph} {x : ClassName}

/-- Every stored target is a class. -/
def KnowsTargets (g : CouplingGraph) : Prop :=
  ∀ row ∈ g.rows.entries, ∀ entry ∈ row.2.entries, entry.1 ∈ g.classes

instance (g : CouplingGraph) : Decidable g.KnowsTargets :=
  inferInstanceAs (Decidable (∀ row ∈ g.rows.entries, ∀ entry ∈ row.2.entries,
    entry.1 ∈ g.classes))

theorem KnowsTargets.mem_classes_of_mem_edges (hg : g.KnowsTargets) {edge : CouplingEdge}
    (h : edge ∈ g.edges) : edge.source ∈ g.classes ∧ edge.target ∈ g.classes := by
  obtain ⟨hweight, hpos⟩ := mem_edges_iff.1 h
  cases hstored : g.stored? edge.source edge.target with
  | none =>
      rw [weight_eq_getD, hstored, Option.getD_none] at hweight
      omega
  | some weight =>
      obtain ⟨row, hrow, hentry⟩ := stored?_eq_some_iff.1 hstored
      exact ⟨mem_classes_of_stored? hstored, hg _ hrow _ hentry⟩

/-- The classes are the isolated ones and the ends of edges. -/
theorem KnowsTargets.mem_classes_iff (hg : g.KnowsTargets) :
    x ∈ g.classes ↔
      x ∈ g.isolatedClasses ∨ ∃ edge ∈ g.edges, edge.source = x ∨ edge.target = x := by
  rw [mem_isolatedClasses_iff]
  constructor
  · intro hx
    by_cases hends : ∃ edge ∈ g.edges, edge.source = x ∨ edge.target = x
    · exact Or.inr hends
    · push Not at hends
      exact Or.inl ⟨hx, hends⟩
  · rintro (⟨hx, -⟩ | ⟨edge, hedge, rfl | rfl⟩)
    · exact hx
    · exact (hg.mem_classes_of_mem_edges hedge).1
    · exact (hg.mem_classes_of_mem_edges hedge).2

/-! ## The numbered graph -/

theorem nodes_toDigraph (g : CouplingGraph) : g.toDigraph.nodes = g.classes := rfl

theorem idxOf?_eq_some {names : List ClassName} (hx : x ∈ names) :
    names.idxOf? x = some (names.idxOf x) := by
  obtain ⟨i, hi⟩ := Option.isSome_iff_exists.1 (List.isSome_idxOf?.2 hx)
  rw [List.idxOf_eq_getD_idxOf?, hi, Option.getD_some]

/-- No edge is lost on the way to the numbered graph. -/
theorem KnowsTargets.arcs_toDigraph (hg : g.KnowsTargets) :
    g.toDigraph.arcs = g.edges.map fun edge =>
      (g.classes.idxOf edge.source, g.classes.idxOf edge.target, edge.weight) := by
  rw [← List.filterMap_eq_map, toDigraph]
  apply List.filterMap_congr
  intro edge hedge
  obtain ⟨hsource, htarget⟩ := hg.mem_classes_of_mem_edges hedge
  rw [idxOf?_eq_some hsource, idxOf?_eq_some htarget]
  rfl

theorem KnowsTargets.isLone_toDigraph (hg : g.KnowsTargets) (x : ClassName) :
    g.toDigraph.isLone (g.classes.idxOf x) =
      g.edges.all fun edge => edge.source ≠ x ∧ edge.target ≠ x := by
  rw [Digraph.isLone, hg.arcs_toDigraph, List.all_map, Bool.eq_iff_iff, List.all_eq_true,
    List.all_eq_true]
  refine forall₂_congr fun edge hedge => ?_
  obtain ⟨hsource, htarget⟩ := hg.mem_classes_of_mem_edges hedge
  simp only [Function.comp_apply, decide_eq_true_eq, ne_eq, List.idxOf_inj hsource,
    List.idxOf_inj htarget]

private theorem mapIdx_eq_map {names : List ClassName} (hnames : names.Nodup)
    (f : Nat → ClassName → List Char) :
    names.mapIdx f = names.map fun x => f (names.idxOf x) x := by
  apply List.ext_getElem
  · rw [List.length_mapIdx, List.length_map]
  · intro i hi hi'
    rw [List.length_map] at hi'
    rw [List.getElem_mapIdx, List.getElem_map, hnames.idxOf_getElem i hi']

private theorem flatten_map_ite (p : ClassName → Bool) (f : ClassName → List Char)
    (names : List ClassName) :
    (names.map fun x => if p x then f x else []).flatten = (names.filter p).flatMap f := by
  induction names with
  | nil => rfl
  | cons x rest ih =>
      rw [List.map_cons, List.flatten_cons, ih, List.filter_cons]
      split
      · rw [List.flatMap_cons]
      · rfl

/-- The lone nodes are the isolated classes, in the same order. -/
theorem KnowsTargets.lines_of_lone (hg : g.KnowsTargets) (line : ClassName → List Char) :
    (g.toDigraph.nodes.mapIdx fun i node =>
        if g.toDigraph.isLone i then line node else []).flatten =
      g.isolatedClasses.flatMap line := by
  have hnodup : g.classes.Nodup := g.rows.keys_nodup
  rw [nodes_toDigraph, mapIdx_eq_map hnodup]
  simp only [hg.isLone_toDigraph]
  exact flatten_map_ite _ line g.classes

/-- The arcs between numbered nodes are the edges between these classes, in the same order. -/
theorem KnowsTargets.lines_of_arcs (hg : g.KnowsTargets)
    (line : ClassName → ClassName → Nat → List Char) :
    (g.toDigraph.arcs.flatMap fun arc =>
        line (g.toDigraph.nodes.getD arc.1 "") (g.toDigraph.nodes.getD arc.2.1 "") arc.2.2) =
      g.edges.flatMap fun edge => line edge.source edge.target edge.weight := by
  have hname {x : ClassName} (hx : x ∈ g.classes) :
      g.toDigraph.nodes.getD (g.classes.idxOf x) "" = x := by
    rw [nodes_toDigraph, List.getD_eq_getElem?_getD, List.getElem?_idxOf hx, Option.getD_some]
  rw [hg.arcs_toDigraph, List.flatMap_map]
  apply List.flatMap_congr
  intro edge hedge
  obtain ⟨hsource, htarget⟩ := hg.mem_classes_of_mem_edges hedge
  simp only [hname hsource, hname htarget]

/-! ## The whole text -/

/-- The lines between the braces. -/
def statements (g : CouplingGraph) : List Dot.Statement :=
  g.isolatedClasses.map .node ++ g.edges.map .edge

theorem lines_of_statements (g : CouplingGraph) :
    g.statements.flatMap Dot.Statement.line =
      g.isolatedClasses.flatMap Dot.nodeLine ++
        g.edges.flatMap fun edge => Dot.edgeLine edge.source edge.target edge.weight := by
  rw [statements, List.flatMap_append, List.flatMap_map, List.flatMap_map]
  rfl

theorem filterMap_node?_statements (g : CouplingGraph) :
    g.statements.filterMap Dot.Statement.node? = g.isolatedClasses := by
  have hnodes : Dot.Statement.node? ∘ Dot.Statement.node = some := rfl
  have hedges : Dot.Statement.node? ∘ Dot.Statement.edge = fun _ => none := rfl
  rw [statements, List.filterMap_append, List.filterMap_map, List.filterMap_map, hnodes, hedges]
  simp

theorem filterMap_edge?_statements (g : CouplingGraph) :
    g.statements.filterMap Dot.Statement.edge? = g.edges := by
  have hnodes : Dot.Statement.edge? ∘ Dot.Statement.node = fun _ => none := rfl
  have hedges : Dot.Statement.edge? ∘ Dot.Statement.edge = some := rfl
  rw [statements, List.filterMap_append, List.filterMap_map, List.filterMap_map, hnodes, hedges]
  simp

theorem KnowsTargets.toList_dot (hg : g.KnowsTargets) (name : String) :
    (g.dot name true).toList =
      "digraph ".toList ++ name.toList ++ " \x7b\n".toList ++
        g.isolatedClasses.flatMap Dot.nodeLine ++
        (g.edges.flatMap fun edge => Dot.edgeLine edge.source edge.target edge.weight) ++
        "\x7d\n".toList := by
  let text (nodes edges : List Char) : List Char :=
    "digraph ".toList ++ name.toList ++ " \x7b\n".toList ++ nodes ++ edges ++ "\x7d\n".toList
  have hdot : (g.dot name true).toList = text _ _ := String.toList_ofList
  have hnodes := hg.lines_of_lone Dot.nodeLine
  have hedges := hg.lines_of_arcs Dot.edgeLine
  exact hdot.trans (congrArg₂ text hnodes hedges)

private theorem append_cancel_head {head nodes edges nodes' edges' close : List Char}
    (h : head ++ nodes ++ edges ++ close = head ++ nodes' ++ edges' ++ close) :
    nodes ++ edges ++ close = nodes' ++ edges' ++ close := by
  simp only [List.append_assoc] at h ⊢
  exact List.append_cancel_left h

/-- Equal drawings are made of equal statements. -/
theorem KnowsTargets.statements_eq (hg : g.KnowsTargets) (hh : h.KnowsTargets) {name : String}
    (heq : g.dot name true = h.dot name true) : g.statements = h.statements := by
  have htext := congrArg String.toList heq
  rw [hg.toList_dot, hh.toList_dot] at htext
  have hbody : g.statements.flatMap Dot.Statement.line ++ '\x7d' :: ['\n'] =
      h.statements.flatMap Dot.Statement.line ++ '\x7d' :: ['\n'] := by
    rw [lines_of_statements, lines_of_statements]
    exact append_cancel_head htext
  exact (Dot.isPrefixFree_line.flatMap_append_inj Dot.line_starts hbody).1

theorem classes_eq_of_isolatedClasses (hg : g.KnowsTargets) (hh : h.KnowsTargets)
    (hisolated : g.isolatedClasses = h.isolatedClasses) (hedges : g.edges = h.edges) :
    g.classes = h.classes := by
  apply eq_of_sorted_of_mem_iff g.rows.keys_sorted h.rows.keys_sorted
  intro x
  exact hg.mem_classes_iff.trans (hisolated ▸ hedges ▸ hh.mem_classes_iff.symm)

/-- A drawing tells the classes and the weights. -/
theorem KnowsTargets.same_of_dot (hg : g.KnowsTargets) (hh : h.KnowsTargets) {name : String}
    (heq : g.dot name true = h.dot name true) :
    g.classes = h.classes ∧ ∀ a b, g.weight a b = h.weight a b := by
  have hstatements := hg.statements_eq hh heq
  have hisolated : g.isolatedClasses = h.isolatedClasses := by
    rw [← filterMap_node?_statements, hstatements, filterMap_node?_statements]
  have hedges : g.edges = h.edges := by
    rw [← filterMap_edge?_statements, hstatements, filterMap_edge?_statements]
  exact ⟨classes_eq_of_isolatedClasses hg hh hisolated hedges, weight_eq_of_edges hedges⟩

/-- A drawing with the isolated classes is a line for each of them and then one for each edge, in
the order of their listings, between the opening and the closing line. Nothing is lost by it, and
nothing depends on the names: drawings of two graphs under one name are equal if and only if the
graphs have the same classes and the same weights. -/
theorem dot_loses_nothing (name : String) (hg : g.KnowsTargets) (hh : h.KnowsTargets) :
    g.dot name true = String.ofList ("digraph ".toList ++ name.toList ++ " \x7b\n".toList ++
      g.isolatedClasses.flatMap Dot.nodeLine ++
      (g.edges.flatMap fun edge => Dot.edgeLine edge.source edge.target edge.weight) ++
      "\x7d\n".toList) ∧
    (g.dot name true = h.dot name true ↔
      g.classes = h.classes ∧ ∀ a b, g.weight a b = h.weight a b) := by
  refine ⟨?_, hg.same_of_dot hh, ?_⟩
  · rw [← hg.toList_dot, String.ofList_toList]
  · rintro ⟨hclasses, hweight⟩
    have hedges : g.edges = h.edges := edges_eq_of_weight hweight
    have hisolated : g.isolatedClasses = h.isolatedClasses := by
      rw [isolatedClasses, isolatedClasses, hclasses, hedges]
    apply String.toList_inj.1
    rw [hg.toList_dot, hh.toList_dot, hisolated, hedges]

/-- Without escapes these drawings would be the same: a name of the first graph reads like the line
of a node and the start of an edge. The names at the edge end in a backslash and imitate the end of a
drawing, and there are entries of weight zero and of a class for itself. -/
theorem dot_loses_nothing_imitations :
    let g : CouplingGraph := ⟨.ofList [("A\";\n    \"B\\", .ofList [("C", 0), ("\x7d\n", 2)]),
      ("C", .ofList [("C", 1)]), ("\x7d\n", .empty)]⟩
    let h : CouplingGraph := ⟨.ofList [("A", .empty),
      ("B\\", .ofList [("C", 0), ("\x7d\n", 2)]),
      ("C", .ofList [("C", 1)]), ("\x7d\n", .empty)]⟩
    g.KnowsTargets ∧ h.KnowsTargets ∧ g.dot "G" true ≠ h.dot "G" true := by
  intro g h
  have hg : g.KnowsTargets := by decide +kernel
  have hh : h.KnowsTargets := by decide +kernel
  refine ⟨hg, hh, fun heq => ?_⟩
  have hclasses := ((dot_loses_nothing "G" hg hh).2.1 heq).1
  exact absurd hclasses (by decide +kernel)

end CouplingGraph

end ModuleRecovery
