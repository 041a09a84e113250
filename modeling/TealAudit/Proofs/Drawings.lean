import Mathlib.Data.List.Count
import TealAudit.Drawing
import TealAudit.Proofs.Predecessors
import TealAudit.Proofs.Quotation
import TealAudit.Proofs.Relabelling
import TealAudit.Proofs.Rows

/-!
# Reading drawings

A drawing is read line by line. A line is that of a node, which has a name and attributes with quoted
values (`Drawing.readNode?`), that of an edge between two names (`Drawing.readEdge?`), or neither. The
readers look at the line alone and know nothing of the program that was drawn.

Names and operands are any bytes. They stand between quotes, a quoted text is on one line
(`Text.newline_not_mem_quote`), and it is read back up to its closing quote (`Text.cutQuoted?_quote`).
So nothing in them can make a line of its own or end an attribute early, and the lines of a drawing are
those of its blocks, those of its edges and five more (`Drawing.splitOn_render`). Blocks come in the
order of their numbers as texts, each of them once (`Drawing.order_perm`). The edges that leave one
block stay in the order in which they are made (`Drawing.filter_edges`).
-/

namespace TealAudit

namespace Drawing

open Text (behind? cutQuoted?)

/-! ## Readers -/

/-- The name of a node at the front of a text: the letter `n` and digits. -/
def cutName? (t : Text) : Option (Text × Text) :=
  (behind? "n" t).bind fun t =>
    if t.takeWhile Text.isDigit = [] then none
    else some ("n" ++ t.takeWhile Text.isDigit, t.dropWhile Text.isDigit)

/-- Attributes at the front of a text: names with quoted values, and commas between them. -/
def cutAttributes? : (fuel : Nat) → Text → Option (List (Text × Text) × Text)
  | 0, _ => none
  | fuel + 1, t =>
    (behind? "=" (t.dropWhile (· ≠ Text.byte '='))).bind fun value =>
      (cutQuoted? value).bind fun read =>
        match behind? "," read.2 with
        | none => some ([(t.takeWhile (· ≠ Text.byte '='), read.1)], read.2)
        | some t' => (cutAttributes? fuel t').map fun more =>
            ((t.takeWhile (· ≠ Text.byte '='), read.1) :: more.1, more.2)

/-- The tab and the name that the lines of nodes and of edges start with. -/
def cutLead? (line : Text) : Option (Text × Text) := (behind? "\t" line).bind cutName?

/-- **The line of a node**: its name and its attributes. -/
def readNode? (line : Text) : Option (Text × List (Text × Text)) := do
  let (name, t) ← cutLead? line
  let t ← behind? "[" t
  let (attributes, t) ← cutAttributes? t.length t
  if t = "];" then some (name, attributes) else none

/-- **The line of an edge**: the names of the node that it leaves and of the node that it enters. -/
def readEdge? (line : Text) : Option (Text × Text) := do
  let (source, t) ← cutLead? line
  let t ← behind? "->" t
  let (target, t) ← cutName? t
  if t = ";" then some (source, target) else none

/-! ## Names and attributes -/

theorem node_inj {j k : Nat} : node j = node k ↔ j = k := by
  refine ⟨fun same => ?_, congrArg node⟩
  have digits : Text.ofNat (j + 1) = Text.ofNat (k + 1) := List.append_cancel_left same
  have numbers := congrArg SourceLine.decimal digits
  rw [SourceLine.decimal_ofNat, SourceLine.decimal_ofNat] at numbers
  omega

/-- A name is read back, if what stands behind it does not start with a digit. -/
theorem cutName?_node (k : Nat) {rest : Text} (other : ∀ b ∈ rest.head?, Text.isDigit b = false) :
    cutName? (node k ++ rest) = some (node k, rest) := by
  have digits : ∀ b ∈ Text.ofNat (k + 1), Text.isDigit b = true :=
    fun _ mem => Text.isDigit_of_mem_ofNat mem
  obtain ⟨none, all⟩ := Text.takeWhile_eq_nil other
  rw [cutName?, node, List.append_assoc, Text.behind?_append, Option.bind_some,
    List.takeWhile_append_of_pos digits, List.dropWhile_append_of_pos digits, none, all,
    List.append_nil, if_neg (SourceLine.ofNat_ne_nil _)]

/-- An attribute is read back, and attributes are read on behind a comma. -/
theorem cutAttributes?_setting {a : Text × Text} (name : Text.byte '=' ∉ a.1) (fuel : Nat) (t : Text) :
    cutAttributes? (fuel + 1) (setting a ++ t) =
      match behind? "," t with
      | none => some ([a], t)
      | some t' => (cutAttributes? fuel t').map fun more => (a :: more.1, more.2) := by
  have before : ∀ b ∈ a.1, decide (b ≠ Text.byte '=') = true := by
    intro b mem
    exact decide_eq_true (ne_of_mem_of_not_mem mem name)
  have written : setting a ++ t = a.1 ++ Text.byte '=' :: (Text.quote a.2 ++ t) := by
    rw [setting, List.append_assoc, List.append_assoc]
    rfl
  have front : (setting a ++ t).takeWhile (· ≠ Text.byte '=') = a.1 := by
    rw [written, List.takeWhile_append_of_pos before, List.takeWhile_cons_of_neg (by decide),
      List.append_nil]
  have back : (setting a ++ t).dropWhile (· ≠ Text.byte '=') =
      Text.ofString "=" ++ (Text.quote a.2 ++ t) := by
    rw [written, List.dropWhile_append_of_pos before, List.dropWhile_cons_of_neg (by decide)]
    rfl
  rw [cutAttributes?, front, back, Text.behind?_append, Option.bind_some, Text.cutQuoted?_quote,
    Option.bind_some]

/-- **Attributes are read back** up to what is behind the last of them. -/
theorem cutAttributes?_join {attributes : List (Text × Text)} (nonempty : attributes ≠ [])
    (names : ∀ a ∈ attributes, Text.byte '=' ∉ a.1) {rest : Text} (stop : behind? "," rest = none)
    {fuel : Nat} (enough : attributes.length ≤ fuel) :
    cutAttributes? fuel (Text.join "," (attributes.map setting) ++ rest) =
      some (attributes, rest) := by
  induction attributes generalizing fuel with
  | nil => exact absurd rfl nonempty
  | cons a as ih =>
    obtain ⟨name, names⟩ := List.forall_mem_cons.mp names
    obtain ⟨fuel, rfl⟩ := Nat.exists_eq_succ_of_ne_zero (Nat.ne_of_gt (Nat.lt_of_lt_of_le
      (Nat.succ_pos _) enough))
    cases as with
    | nil =>
      rw [List.map_singleton, Text.join, cutAttributes?_setting name, stop]
    | cons c as =>
      have more := ih (List.cons_ne_nil c as) names (Nat.le_of_succ_le_succ enough)
      rw [List.map_cons, List.map_cons, Text.join, List.append_assoc, List.append_assoc,
        cutAttributes?_setting name, Text.behind?_append]
      rw [List.map_cons] at more
      simp only [more, Option.map_some]

theorem length_le_join (sep : Text) {ws : List Text} (nonempty : ∀ w ∈ ws, w ≠ []) :
    ws.length ≤ (Text.join sep ws).length := by
  fun_induction Text.join sep ws with
  | case1 => exact Nat.le_refl 0
  | case2 w => exact List.length_pos_iff.mpr (nonempty w List.mem_cons_self)
  | case3 w v vs ih =>
    obtain ⟨first, nonempty⟩ := List.forall_mem_cons.mp nonempty
    have positive := List.length_pos_iff.mpr first
    have more := ih nonempty
    rw [List.length_cons, List.length_append, List.length_append]
    omega

/-! ## Lines -/

/-- The line of a block, without its end. -/
def nodeRow (d : Drawing) (b : Block) : Text :=
  "\t" ++ (node b.index ++ ("[" ++ (Text.join "," ((d.attributes b).map setting) ++ "];")))

/-- The line of an edge, without its end. -/
def edgeRow (source target : Nat) : Text :=
  "\t" ++ (node source ++ ("->" ++ (node target ++ ";")))

/-- The line of the graph's own label, without its end. -/
def titleRow (name : Text) : Text := "\tlabel=" ++ Text.quote name ++ ";labelloc=\"t\";"

theorem names_of_attributes (d : Drawing) (b : Block) :
    ∀ a ∈ d.attributes b, Text.byte '=' ∉ a.1 ∧ Text.byte '\n' ∉ a.1 := by
  have names : ∀ name ∈ (d.attributes b).map (·.1),
      Text.byte '=' ∉ name ∧ Text.byte '\n' ∉ name := by
    unfold attributes
    split
    · show ∀ name ∈ [Text.ofString "fillcolor", "label", "shape", "style"], _
      decide
    · show ∀ name ∈ [Text.ofString "label", "shape"], _
      decide
  intro a mem
  exact names a.1 (List.mem_map_of_mem mem)

theorem attributes_ne_nil (d : Drawing) (b : Block) : d.attributes b ≠ [] := by
  unfold attributes
  split <;> exact List.cons_ne_nil _ _

theorem cutLead?_node (k : Nat) (rest : Text) (other : ∀ b ∈ rest.head?, Text.isDigit b = false) :
    cutLead? ("\t" ++ (node k ++ rest)) = some (node k, rest) := by
  rw [cutLead?, Text.behind?_append, Option.bind_some, cutName?_node k other]

/-- **The line of a block is read back**, and it is not that of an edge. -/
theorem read_nodeRow (d : Drawing) (b : Block) :
    readNode? (d.nodeRow b) = some (node b.index, d.attributes b) ∧
      readEdge? (d.nodeRow b) = none := by
  have lead := cutLead?_node b.index
    ("[" ++ (Text.join "," ((d.attributes b).map setting) ++ "];"))
    (fun _ first => by cases first; rfl)
  constructor
  · have filled : ∀ w ∈ (d.attributes b).map setting, w ≠ [] := by
      intro w mem
      obtain ⟨a, _, rfl⟩ := List.mem_map.mp mem
      simp [setting, Text.ofString]
    have enough : (d.attributes b).length ≤
        (Text.join "," ((d.attributes b).map setting) ++ Text.ofString "];").length := by
      have long := length_le_join "," filled
      rw [List.length_map] at long
      rw [List.length_append]
      omega
    have stop : behind? "," (Text.ofString "];") = none := rfl
    have attributes := cutAttributes?_join (attributes_ne_nil d b)
      (fun a mem => (names_of_attributes d b a mem).1) stop enough
    rw [readNode?, nodeRow, lead]
    simp only [Option.bind_eq_bind, Option.bind_some, Text.behind?_append, attributes, if_true]
  · rw [readEdge?, nodeRow, lead]
    rfl

/-- **The line of an edge is read back**, and it is not that of a node. -/
theorem read_edgeRow (source target : Nat) :
    readEdge? (edgeRow source target) = some (node source, node target) ∧
      readNode? (edgeRow source target) = none := by
  have lead := cutLead?_node source ("->" ++ (node target ++ ";"))
    (fun _ first => by cases first; rfl)
  constructor
  · rw [readEdge?, edgeRow, lead]
    simp only [Option.bind_eq_bind, Option.bind_some, Text.behind?_append]
    rw [cutName?_node target (fun _ first => by cases first; rfl)]
    rfl
  · rw [readNode?, edgeRow, lead]
    rfl

/-- The lines of a drawing. -/
def rows (d : Drawing) : List Text :=
  Text.ofString "digraph  \x7b" :: titleRow d.program.name :: ((order d.program).map d.nodeRow ++
    (((order d.program).flatMap fun b => (d.program.next b.index).map (edgeRow b.index)) ++
      [Text.ofString "\t", Text.ofString "\x7d"]))

theorem render_eq (d : Drawing) : d.render = Text.ofRows d.rows := by
  have nodes : d.nodeLine = fun b => d.nodeRow b ++ Text.ofString "\n" := by
    funext b
    simp only [nodeLine, nodeRow, List.append_assoc]
    rfl
  have edges (source : Nat) : edgeLine source = fun k => edgeRow source k ++ Text.ofString "\n" := by
    funext k
    simp only [edgeLine, edgeRow, List.append_assoc]
    rfl
  simp only [render, setting, titleRow, Text.ofRows, rows, List.flatMap_cons, List.flatMap_append,
    List.flatMap_map, List.flatMap_assoc, nodes, edges, List.append_assoc]
  rfl

theorem not_mem_node (k : Nat) : Text.byte '\n' ∉ node k := by
  intro mem
  rcases List.mem_append.mp mem with letter | digit
  · exact absurd letter (by decide)
  · exact absurd (Text.isDigit_of_mem_ofNat digit) (by decide)

theorem not_mem_setting {a : Text × Text} (name : Text.byte '\n' ∉ a.1) :
    Text.byte '\n' ∉ setting a := by
  intro mem
  rcases List.mem_append.mp mem with mem | value
  · rcases List.mem_append.mp mem with front | sign
    · exact name front
    · exact absurd sign (by decide)
  · exact Text.newline_not_mem_quote a.2 value

theorem not_mem_nodeRow (d : Drawing) (b : Block) : Text.byte '\n' ∉ d.nodeRow b := by
  have settings : Text.byte '\n' ∉ Text.join "," ((d.attributes b).map setting) := by
    intro mem
    rcases Text.mem_join mem with comma | ⟨w, inside, mem⟩
    · exact absurd comma (by decide)
    · obtain ⟨a, own, rfl⟩ := List.mem_map.mp inside
      exact not_mem_setting (names_of_attributes d b a own).2 mem
  simp only [nodeRow, List.mem_append, not_or]
  exact ⟨by decide, not_mem_node _, by decide, settings, by decide⟩

theorem not_mem_edgeRow (source target : Nat) : Text.byte '\n' ∉ edgeRow source target := by
  simp only [edgeRow, List.mem_append, not_or]
  exact ⟨by decide, not_mem_node _, by decide, not_mem_node _, by decide⟩

theorem not_mem_titleRow (name : Text) : Text.byte '\n' ∉ titleRow name := by
  simp only [titleRow, List.mem_append, not_or]
  exact ⟨⟨by decide, Text.newline_not_mem_quote name⟩, by decide⟩

/-- **The lines of a drawing** are those of its blocks and of its edges, and five more. -/
theorem splitOn_render (d : Drawing) :
    Text.splitOn (Text.byte '\n') d.render = d.rows ++ [[]] := by
  rw [render_eq]
  apply Text.splitOn_ofRows
  simp only [rows, List.forall_mem_cons, List.forall_mem_append, List.forall_mem_map,
    List.forall_mem_flatMap]
  exact ⟨by decide, not_mem_titleRow _, fun b _ => not_mem_nodeRow d b,
    fun b _ k _ => not_mem_edgeRow b.index k, by decide⟩

/-! ## Reading the lines -/

/-- The edges of a program as they are drawn, from block to block. -/
def arrows (p : Program) : List (Text × Text) :=
  (order p).flatMap fun b => (p.next b.index).map fun k => (node b.index, node k)

/-- Reading the lines one by one passes over those that are neither nodes nor edges. -/
theorem filterMap_rows {β : Type} (d : Drawing) {f : Text → Option β}
    (head : f (Text.ofString "digraph  \x7b") = none) (title : f (titleRow d.program.name) = none)
    (gap : f (Text.ofString "\t") = none) (brace : f (Text.ofString "\x7d") = none)
    (last : f [] = none) :
    (d.rows ++ [[]]).filterMap f = (order d.program).filterMap (fun b => f (d.nodeRow b)) ++
      (order d.program).flatMap fun b =>
        (d.program.next b.index).filterMap fun k => f (edgeRow b.index k) := by
  have edges : ((order d.program).flatMap fun b =>
        (d.program.next b.index).map (edgeRow b.index)).filterMap f =
      (order d.program).flatMap fun b =>
        (d.program.next b.index).filterMap fun k => f (edgeRow b.index k) := by
    rw [List.filterMap_flatMap]
    simp only [List.filterMap_map, Function.comp_def]
  have back : [Text.ofString "\t", Text.ofString "\x7d", []].filterMap f = [] := by
    simp only [List.filterMap_cons, gap, brace, last, List.filterMap_nil]
  simp only [rows, List.cons_append, List.append_assoc, List.nil_append, List.filterMap_cons, head,
    title, List.filterMap_append, List.filterMap_map, Function.comp_def, edges, back, List.append_nil]

theorem filterMap_readNode? (d : Drawing) : (d.rows ++ [[]]).filterMap readNode? =
    (order d.program).map fun b => (node b.index, d.attributes b) := by
  have none : ((order d.program).flatMap fun b =>
      (d.program.next b.index).filterMap fun k => readNode? (edgeRow b.index k)) = [] := by
    simp only [(read_edgeRow _ _).2, List.filterMap_none, List.flatMap_eq_nil_iff, implies_true]
  rw [filterMap_rows d rfl rfl rfl rfl rfl, none, List.append_nil]
  simp only [(read_nodeRow d _).1, List.filterMap_eq_map']

theorem filterMap_readEdge? (d : Drawing) :
    (d.rows ++ [[]]).filterMap readEdge? = arrows d.program := by
  rw [filterMap_rows d rfl rfl rfl rfl rfl, arrows]
  simp only [(read_nodeRow d _).2, (read_edgeRow _ _).1, List.filterMap_none, List.nil_append,
    List.filterMap_eq_map']

theorem filter_others (d : Drawing) :
    (d.rows ++ [[]]).filter (fun line => (readNode? line).isNone && (readEdge? line).isNone) =
      [Text.ofString "digraph  \x7b", titleRow d.program.name, "\t", "\x7d", ""] := by
  have nodes : ((order d.program).map d.nodeRow).filter
      (fun line => (readNode? line).isNone && (readEdge? line).isNone) = [] := by
    rw [List.filter_eq_nil_iff]
    intro line mem
    obtain ⟨b, _, rfl⟩ := List.mem_map.mp mem
    simp [(read_nodeRow d b).1]
  have edges : ((order d.program).flatMap fun b =>
      (d.program.next b.index).map (edgeRow b.index)).filter
      (fun line => (readNode? line).isNone && (readEdge? line).isNone) = [] := by
    rw [List.filter_eq_nil_iff]
    intro line mem
    obtain ⟨b, _, mem⟩ := List.mem_flatMap.mp mem
    obtain ⟨k, _, rfl⟩ := List.mem_map.mp mem
    simp [(read_edgeRow b.index k).1]
  rw [rows, List.cons_append, List.cons_append, List.filter_cons_of_pos rfl,
    List.filter_cons_of_pos rfl, List.append_assoc, List.filter_append, nodes, List.append_assoc,
    List.filter_append, edges]
  rfl

/-! ## The graph -/

section Graph

variable {p : Program}

/-- The blocks are drawn in another order, each of them once. -/
theorem order_perm (p : Program) : (order p).Perm p.blocks := List.mergeSort_perm _ _

theorem nodup_index_order (built : p.Built) : ((order p).map Block.index).Nodup :=
  ((order_perm p).map _).nodup_iff.mpr built.nodup_index

/-- The blocks of a number among those that are drawn. -/
theorem filter_order (built : p.Built) (k : Nat) :
    (order p).filter (fun c => c.index = k) = p.blocks[k]?.toList := by
  cases found : p.blocks[k]? with
  | some b =>
    have mem : b ∈ order p := (order_perm p).mem_iff.mpr (List.mem_of_getElem? found)
    have own := Dict.filter_of_nodup (nodup_index_order built) mem
    rwa [built.index_eq found] at own
  | none =>
    show _ = []
    rw [List.filter_eq_nil_iff]
    intro c drawn same
    have lt := built.index_lt ((order_perm p).mem_iff.mp drawn)
    rw [of_decide_eq_true same] at lt
    exact absurd lt (Nat.not_lt.mpr (List.getElem?_eq_none_iff.mp found))

/-- A number without a block is the source of no edge. -/
theorem next_eq_nil (sources : ∀ e ∈ p.edges, e.source < p.blocks.length) {k : Nat}
    (none : p.blocks.length ≤ k) : p.next k = [] := by
  rw [Program.next, List.map_eq_nil_iff, List.filter_eq_nil_iff]
  intro e mem same
  have lt := sources e mem
  rw [of_decide_eq_true same] at lt
  omega

/-- The edges that are drawn from one block are those that leave it, in their order. -/
theorem filter_edges (built : p.Built) (sources : ∀ e ∈ p.edges, e.source < p.blocks.length)
    (k : Nat) :
    (arrows p).filter (fun e => e.1 = node k) = (p.next k).map fun j => (node k, node j) := by
  have own (b : Block) : (((p.next b.index).map fun k => (node b.index, node k)).filter
      fun e => e.1 = node k) =
        if decide (b.index = k) then (p.next k).map fun j => (node k, node j) else [] := by
    by_cases same : b.index = k
    · rw [if_pos (decide_eq_true same), List.filter_eq_self.mpr, same]
      intro e mem
      obtain ⟨j, _, rfl⟩ := List.mem_map.mp mem
      exact decide_eq_true (congrArg node same)
    · rw [if_neg (by simpa using same), List.filter_eq_nil_iff]
      intro e mem
      obtain ⟨j, _, rfl⟩ := List.mem_map.mp mem
      simpa [node_inj] using same
  rw [arrows, List.filter_flatMap]
  simp only [own]
  rw [flatMap_ite, filter_order built]
  cases found : p.blocks[k]? with
  | some b => simp
  | none => simp [next_eq_nil sources (List.getElem?_eq_none_iff.mp found)]

/-- The edges that are drawn are those of the graph in another order. -/
theorem edges_perm (built : p.Built) (sources : ∀ e ∈ p.edges, e.source < p.blocks.length) :
    (arrows p).Perm
      (p.edges.map fun e => (node e.source, node e.target)) := by
  have grouped := perm_groups Edge.source p.edges (nodup_index_order built)
  have all : p.edges.filter (fun e => e.source ∈ (order p).map Block.index) = p.edges := by
    rw [List.filter_eq_self]
    intro e mem
    obtain ⟨b, inside, index⟩ := built.exists_block (sources e mem)
    have drawn := (order_perm p).mem_iff.mpr inside
    exact decide_eq_true (index ▸ List.mem_map_of_mem drawn)
  rw [all, List.flatMap_map] at grouped
  refine List.Perm.trans (.of_eq ?_) (grouped.map _)
  rw [arrows, List.map_flatMap]
  refine List.flatMap_congr fun b _ => ?_
  rw [Program.next, List.map_map]
  refine List.map_congr_left fun e mem => ?_
  rw [Function.comp_apply, of_decide_eq_true (List.mem_filter.mp mem).2]

end Graph

/-! ## What is read of a drawing -/

/-- The values that attributes give to a name. -/
def valuesOf (name : Text) (attributes : List (Text × Text)) : List Text :=
  (attributes.filter fun a => a.1 = name).map (·.2)

/-- **What lines tell about a drawing** that is read from them. -/
structure Depicts (lines : List Text) (d : Drawing) : Prop where
  /-- There are as many nodes as blocks. -/
  nodes : (lines.filterMap readNode?).length = d.program.blocks.length
  /-- One node has the name of a block. Its label says what is known of the block, and it is filled
  red if the block is highlighted. -/
  block : ∀ k b, d.program.blocks[k]? = some b → ∃ attributes,
    (lines.filterMap readNode?).filter (fun n => n.1 = node k) = [(node k, attributes)] ∧
      valuesOf "label" attributes = ["block_" ++ Text.ofNat k ++
        (if 0 < d.cost k then " (cost " ++ Text.ofInt (d.cost k) ++ ")" else []) ++ "\n" ++ b.text] ∧
      valuesOf "fillcolor" attributes = (if k ∈ d.highlighted then [Text.ofString "red"] else []) ∧
      valuesOf "style" attributes = if k ∈ d.highlighted then [Text.ofString "filled"] else []
  /-- There are as many edges as in the graph. -/
  edges : (lines.filterMap readEdge?).length = d.program.edges.length
  /-- So there are between any two blocks. -/
  pairs : ∀ j k, (lines.filterMap readEdge?).count (node j, node k) = d.program.edges.count ⟨j, k⟩
  /-- The edges that leave one block are in the order in which they are made. -/
  wiring : ∀ k, ((lines.filterMap readEdge?).filter fun e => e.1 = node k).map (·.2) =
    (d.program.next k).map node
  /-- Five lines are neither those of nodes nor those of edges. -/
  others : lines.filter (fun line => (readNode? line).isNone && (readEdge? line).isNone) =
    [Text.ofString "digraph  \x7b", "\tlabel=" ++ Text.quote d.program.name ++ ";labelloc=\"t\";",
      "\t", "\x7d", ""]

/-- The label of a block's node, and whether it is filled red. -/
theorem values_attributes (d : Drawing) (b : Block) :
    valuesOf "label" (d.attributes b) = ["block_" ++ Text.ofNat b.index ++
        (if 0 < d.cost b.index then " (cost " ++ Text.ofInt (d.cost b.index) ++ ")" else []) ++
        "\n" ++ b.text] ∧
      valuesOf "fillcolor" (d.attributes b) =
        (if b.index ∈ d.highlighted then [Text.ofString "red"] else []) ∧
      valuesOf "style" (d.attributes b) =
        if b.index ∈ d.highlighted then [Text.ofString "filled"] else [] := by
  have label : d.label b = "block_" ++ Text.ofNat b.index ++
      (if 0 < d.cost b.index then " (cost " ++ Text.ofInt (d.cost b.index) ++ ")" else []) ++
      "\n" ++ b.text := by
    simp only [label]
    split_ifs
    · simp only [List.append_assoc]
    · simp only [List.append_nil]
  rw [← label, attributes]
  by_cases chosen : b.index ∈ d.highlighted
  · rw [if_pos (List.contains_iff_mem.mpr chosen), if_pos chosen, if_pos chosen]
    exact ⟨rfl, rfl, rfl⟩
  · rw [if_neg (mt List.contains_iff_mem.mp chosen), if_neg chosen, if_neg chosen]
    exact ⟨rfl, rfl, rfl⟩

/-- **A drawing determines the graph** of the program, whatever its name and its operands are, and
whatever costs and highlighted blocks it is drawn with: `Depicts` says what is read from its lines. -/
theorem render_depicts {name source : Text} {p : Program}
    (built : Program.ofSource name source = .ok p) (costs : List Int) (highlighted : List Nat) :
    Depicts (Text.splitOn (Text.byte '\n') (render ⟨p, costs, highlighted⟩))
      ⟨p, costs, highlighted⟩ := by
  have graph := Program.built_of_source built
  have sources : ∀ e ∈ p.edges, e.source < p.blocks.length :=
    fun e mem => (Program.edge_lt (Program.parse_of_source built).2 mem).1
  have drawn := edges_perm graph sources
  rw [splitOn_render]
  refine ⟨?_, fun k b found => ?_, ?_, fun j k => ?_, fun k => ?_, filter_others _⟩
  · rw [filterMap_readNode?, List.length_map]
    exact (order_perm p).length_eq
  · have index := graph.index_eq found
    have values := values_attributes ⟨p, costs, highlighted⟩ b
    rw [index] at values
    refine ⟨attributes ⟨p, costs, highlighted⟩ b, ?_, values⟩
    rw [filterMap_readNode?, List.filter_map]
    simp only [Function.comp_def, node_inj]
    rw [filter_order graph, found, Option.toList_some, List.map_singleton, index]
  · rw [filterMap_readEdge?, drawn.length_eq, List.length_map]
  · rw [filterMap_readEdge?, drawn.count_eq]
    have injective : Function.Injective fun e : Edge => (node e.source, node e.target) := by
      rintro ⟨a, b⟩ ⟨c, d⟩ same
      obtain ⟨source, target⟩ := Prod.mk.inj same
      cases node_inj.mp source
      cases node_inj.mp target
      rfl
    exact List.count_map_of_injective p.edges _ injective ⟨j, k⟩
  · rw [filterMap_readEdge?, filter_edges graph sources, List.map_map]
    rfl

/-- Blocks with repeated edges under a name that looks like the line of an edge and is not valid UTF-8;
one block has a cost and is highlighted twice. -/
theorem render_depicts_repeated : ∃ p lines attributes,
    Program.ofSource (Text.ofString "\"];\n\tn1->n2;\\" ++ [0xFF])
      (Text.ofString "x: switch x x y\ny: byte \"n1->n2;\"") = .ok p ∧
      lines = Text.splitOn (Text.byte '\n') (render ⟨p, [0, 7], [1, 1]⟩) ∧
      (lines.filterMap readNode?).length = 2 ∧
      (lines.filterMap readNode?).filter (fun n => n.1 = node 1) = [(node 1, attributes)] ∧
      valuesOf "label" attributes =
        [Text.ofString "block_1 (cost 7)\n2: byte \"n1->n2;\"\n"] ∧
      valuesOf "fillcolor" attributes = [Text.ofString "red"] ∧
      (lines.filterMap readEdge?).length = 4 ∧
      ((lines.filterMap readEdge?).filter fun e => e.1 = node 0).map (·.2) =
        [Text.ofString "n2", "n1", "n1", "n2"] := by
  obtain ⟨p, built, checked⟩ := Program.exists_of_any
    (q := fun p => p.blocks.length = 2 && p.edges.length = 4 && p.next 0 = [1, 0, 0, 1] &&
      p.blocks[1]?.any fun b => b.text = Text.ofString "2: byte \"n1->n2;\"\n")
    (r := Program.ofSource (Text.ofString "\"];\n\tn1->n2;\\" ++ [0xFF])
      (Text.ofString "x: switch x x y\ny: byte \"n1->n2;\"")) (by decide +kernel)
  simp only [Bool.and_eq_true, decide_eq_true_eq, Option.any_eq_true] at checked
  obtain ⟨⟨⟨blocks, edges⟩, next⟩, b, second, text⟩ := checked
  have read := render_depicts built [0, 7] [1, 1]
  obtain ⟨attributes, drawn, label, filled, -⟩ := read.block 1 b second
  refine ⟨p, _, attributes, built, rfl, read.nodes.trans blocks, drawn, ?_, filled,
    read.edges.trans edges, ?_⟩
  · rw [label, text]
    rfl
  · rw [read.wiring, next]
    decide

end Drawing

end TealAudit
