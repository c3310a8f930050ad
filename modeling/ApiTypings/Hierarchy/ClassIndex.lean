/-
# The class hierarchy

The classes of a forest by full name, each with its base class and with the way down to it.  The
index is collected in one walk through the forest, which keeps the way down to where it is, and a
class is found later by going down that way again.

Base classes may lie outside the index, and documentation may even declare a class to be above
itself, so walks along base classes stop where a name comes up again.

* `find?_entry` : an entry is found under its name;
* `unvisited_lt` : visiting a class of the index leaves fewer classes to visit.
-/
import ApiTypings.Forest.Classes

namespace ApiTypings

/-- A class, its base class and the way down to it. -/
structure ClassEntry where
  name : String
  base : Option String
  path : Position
  deriving DecidableEq, Repr

/-- The classes of a forest, their base classes and the ways down to them. -/
structure ClassIndex where
  /-- The classes, in the order of the forest. -/
  entries : List ClassEntry
  deriving Inhabited

/-! ## Building the index -/

/-- The walk through a forest that collects its classes. -/
structure Collector where
  /-- The classes that were met. -/
  entries : List ClassEntry
  /-- The way down to the declaration at hand. -/
  path : Position

namespace Collector

/-- The start of the walk, above the roots. -/
def start : Collector := ⟨[], []⟩

/-- One step down, to the child of a number. -/
def push (s : Collector) (k : Nat) : Collector := { s with path := s.path ++ [k] }

/-- One step back up. -/
def pop (s : Collector) : Collector := { s with path := s.path.dropLast }

/-- One more class.  A second class of one full name is an error. -/
def record (entries : List ClassEntry) (e : ClassEntry) :
    Except GenerationError (List ClassEntry) :=
  if e.name ∈ entries.map (·.name) then .error (.duplicateClass e.name) else .ok (entries ++ [e])

/-- The declaration at hand is recorded if it is a class. -/
def visit (s : Collector) (d : Declaration) : Except GenerationError Collector :=
  match d.class? with
  | none => .ok s
  | some c => do return { s with entries := ← record s.entries ⟨c.fullName, c.body.base, s.path⟩ }

mutual

/-- The walk through a declaration: first the declaration, then what is nested in it. -/
def collect (s : Collector) : Declaration → Except GenerationError Collector
  | .node h b cs => do collectAll (← s.visit (.node h b cs)) 0 cs

/-- The walk through declarations, the first of which has the number `k`. -/
def collectAll (s : Collector) (k : Nat) : List Declaration → Except GenerationError Collector
  | [] => .ok s
  | d :: ds => do collectAll (← collect (s.push k) d).pop (k + 1) ds

end

end Collector

namespace ClassIndex

/-- The index of a forest.  Two classes of one full name are an error. -/
def ofForest (forest : Forest) : Except GenerationError ClassIndex := do
  return ⟨(← Collector.start.collectAll 0 forest).entries⟩

/-! ## Looking classes up -/

/-- The number of classes. -/
def size (i : ClassIndex) : Nat := i.entries.length

/-- The names of the classes. -/
def names (i : ClassIndex) : List String := i.entries.map (·.name)

/-- Whether a class is in the index. -/
def contains (i : ClassIndex) (name : String) : Bool := i.names.contains name

/-- The way down to a class. -/
def path? (i : ClassIndex) (name : String) : Option Position :=
  (i.entries.find? (·.name == name)).map (·.path)

/-- The class of a full name in a forest, at the end of the way down to it. -/
def class? (i : ClassIndex) (forest : Forest) (name : String) : Option ClassDecl :=
  (i.path? name).bind forest.classAt?

/-- The forest with a change made to the class of a full name, at the end of the way down to it. -/
def changeClass? (i : ClassIndex) (forest : Forest) (name : String) (f : ClassBody → ClassBody) :
    Option Forest :=
  (i.path? name).bind (forest.changeAt? f)

/-- The base class of a class. -/
def baseOf? (i : ClassIndex) (name : String) : Option String :=
  (i.entries.find? (·.name == name)).bind (·.base)

/-- The classes with the given base class, sorted. -/
def subclasses (i : ClassIndex) (name : String) : List String :=
  ((i.entries.filter (·.base == some name)).map (·.name)).mergeSort

/-- Whether a class is at the top of the index: its base class is absent or outside. -/
def isTop (i : ClassIndex) (e : ClassEntry) : Bool :=
  match e.base with
  | none => true
  | some base => !i.contains base

/-- The classes at the top of the index, sorted. -/
def roots (i : ClassIndex) : List String := ((i.entries.filter i.isTop).map (·.name)).mergeSort

/-- Among distinct names an entry is found under its name. -/
theorem find?_entry {es : List ClassEntry} (hnd : (es.map (·.name)).Nodup) {e : ClassEntry}
    (he : e ∈ es) : es.find? (·.name == e.name) = some e := by
  induction es with
  | nil => exact absurd he List.not_mem_nil
  | cons x es ih =>
    rw [List.map_cons, List.nodup_cons] at hnd
    rcases List.mem_cons.1 he with rfl | he
    · exact List.find?_cons_of_pos (by simp)
    · have hne : x.name ≠ e.name := fun h => hnd.1 (h ▸ List.mem_map_of_mem he)
      rw [List.find?_cons_of_neg (by simpa using hne)]
      exact ih hnd.2 he

/-- A class with a base class is in the index. -/
theorem mem_names_of_baseOf {i : ClassIndex} {name base : String} (h : i.baseOf? name = some base) :
    name ∈ i.names := by
  unfold baseOf? at h
  cases he : i.entries.find? (·.name == name) with
  | none => simp [he] at h
  | some e =>
    have h1 := List.find?_some he
    have h2 := List.mem_of_find?_eq_some he
    simp only [beq_iff_eq] at h1
    exact h1 ▸ List.mem_map_of_mem h2

/-! ## Walking up the base classes -/

/-- How many classes were not visited. -/
def unvisited (i : ClassIndex) (visited : List String) : Nat :=
  i.names.countP (!visited.contains ·)

/-- Visiting a class of the index leaves fewer classes to visit. -/
theorem unvisited_lt {i : ClassIndex} {visited : List String} {name : String}
    (hmem : name ∈ i.names) (hnew : name ∉ visited) :
    i.unvisited (name :: visited) < i.unvisited visited := by
  unfold unvisited
  generalize i.names = ns at hmem
  induction ns with
  | nil => simp at hmem
  | cons n ns ih =>
    have hle : ns.countP (!(name :: visited).contains ·) ≤ ns.countP (!visited.contains ·) :=
      List.countP_mono_left fun x _ hx => by
        simp only [List.contains_cons, Bool.not_or, Bool.and_eq_true] at hx
        exact hx.2
    by_cases hn : n = name
    · subst hn
      rw [List.countP_cons_of_neg (by simp), List.countP_cons_of_pos (by simpa using hnew)]
      omega
    · have hmem' : name ∈ ns := by
        rcases List.mem_cons.1 hmem with h | h
        · exact absurd h.symm hn
        · exact h
      have := ih hmem'
      by_cases hv : n ∈ visited
      · rw [List.countP_cons_of_neg (by simp [hv]), List.countP_cons_of_neg (by simp [hv])]
        exact this
      · rw [List.countP_cons_of_pos (by simp [hv, hn]), List.countP_cons_of_pos (by simp [hv])]
        omega

/-- A name and the base classes above it, up to the first one that was visited or has no base. -/
def chainFrom (i : ClassIndex) (visited : List String) (name : String) : List String :=
  if _hnew : name ∈ visited then []
  else
    match _hbase : i.baseOf? name with
    | none => [name]
    | some base => name :: i.chainFrom (name :: visited) base
termination_by i.unvisited visited
decreasing_by exact unvisited_lt (mem_names_of_baseOf _hbase) _hnew

/-- The base classes above a class, nearest first. -/
def ancestors (i : ClassIndex) (name : String) : List String :=
  match i.baseOf? name with
  | none => []
  | some base => i.chainFrom [] base

/-- Whether a class is `ancestor` or below it. -/
def descendsFrom (i : ClassIndex) (name ancestor : String) : Bool :=
  (i.chainFrom [] name).contains ancestor

/-! ## Walking down from the top -/

/-- The classes in the order of a walk down: a class, then its subclasses, then the other names to
do.  A class is visited once, and a name outside the index is passed over. -/
def walkDown (i : ClassIndex) (visited : List String) : List String → List String
  | [] => []
  | name :: todo =>
    if _h : name ∈ visited ∨ name ∉ i.names then i.walkDown visited todo
    else name :: i.walkDown (name :: visited) (i.subclasses name ++ todo)
termination_by todo => (i.unvisited visited, todo.length)
decreasing_by
  · exact Prod.Lex.right _ (by simp)
  · exact Prod.Lex.left _ _
      (unvisited_lt (Classical.not_not.1 fun h => _h (.inr h)) fun h => _h (.inl h))

/-- The classes below the top, each one after its base class. -/
def topDown (i : ClassIndex) : List String := i.walkDown [] i.roots

/-- The classes that no walk from the top reaches, sorted: those on a cycle of base classes and
those below one. -/
def unreached (i : ClassIndex) : List String :=
  let reached := i.topDown
  (i.names.filter (!reached.contains ·)).mergeSort

end ClassIndex

end ApiTypings
