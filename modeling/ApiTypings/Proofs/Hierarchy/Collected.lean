/-
# The index of a forest

The walk that collects the classes of a forest has one way down for all of them, which it changes as
it goes.  Behind every declaration the way down is what it was in front of it, so each class is
recorded with its own position.  In effect the walk records the classes with their positions one
after the other, and it ends at the first one with the name of an earlier one.

* `collectAll_eq` : the walk records the placed classes, and comes back to where it was;
* `ofForest_cases`, `ofForest_eq_ok_iff` : when a forest has an index, and which;
* `path?_eq_some`, `path?_eq_none` : the ways down that the index knows;
* `class?_eq_some`, `changeClass?_eq_some` : what is found, and changed, at their ends.
-/
import ApiTypings.Hierarchy.ClassIndex
import ApiTypings.Proofs.Forest.Positions

namespace ApiTypings

/-! ## The walk -/

namespace Collector

/-- The entry of a class that is met on the way down from a declaration. -/
def entryBelow (path : Position) (e : Position × ClassDecl) : ClassEntry :=
  ⟨e.2.fullName, e.2.body.base, path ++ e.1⟩

/-- Recording classes one after the other. -/
def recordAll (entries : List ClassEntry) (es : List ClassEntry) :
    Except GenerationError (List ClassEntry) := es.foldlM record entries

theorem recordAll_append (entries es es' : List ClassEntry) :
    recordAll entries (es ++ es') = recordAll entries es >>= (recordAll · es') :=
  List.foldlM_append

theorem entryBelow_cons (path : Position) (k : Nat) (e : Position × ClassDecl) :
    entryBelow path (k :: e.1, e.2) = entryBelow (path ++ [k]) e := by
  rw [entryBelow, entryBelow, List.append_assoc, List.singleton_append]

@[simp] theorem pop_push (s : Collector) (k : Nat) : (s.push k).pop = s := by
  simp [push, pop]

/-- A declaration is recorded as the class that it itself is, if it is one. -/
theorem visit_eq (s : Collector) (h : Header) (b : Body) (cs : List Declaration) :
    s.visit (.node h b cs) = do
      let entries ← recordAll s.entries
        ((Declaration.ownClass h b).map fun c => entryBelow s.path ([], c))
      return { s with entries } := by
  cases b with
  | ofClass c =>
    show (do return { s with entries := ← record s.entries ⟨h.fullName, c.base, s.path⟩ }) = _
    simp [Declaration.ownClass, Body.class?, recordAll, entryBelow]
  | _ => rfl

mutual

/-- The walk through a declaration records its classes, and comes back to where it was. -/
theorem collect_eq : ∀ (s : Collector) (d : Declaration),
    s.collect d = do
      let entries ← recordAll s.entries (d.placedClasses.map (entryBelow s.path))
      return { s with entries }
  | s, .node h b cs => by
    rw [collect, visit_eq, Declaration.placedClasses, List.map_append, List.map_map,
      recordAll_append, bind_assoc, bind_assoc]
    refine bind_congr fun entries => ?_
    rw [pure_bind, collectAll_eq { s with entries } 0 cs]

/-- The walk through declarations records their classes, and comes back to where it was. -/
theorem collectAll_eq : ∀ (s : Collector) (k : Nat) (ds : List Declaration),
    s.collectAll k ds = do
      let entries ← recordAll s.entries
        ((Declaration.placedClassesAll k ds).map (entryBelow s.path))
      return { s with entries }
  | s, k, [] => rfl
  | s, k, d :: ds => by
    have hbelow : (d.placedClasses.map fun e => (k :: e.1, e.2)).map (entryBelow s.path)
        = d.placedClasses.map (entryBelow (s.push k).path) := by
      rw [List.map_map]
      exact List.map_congr_left fun e _ => entryBelow_cons s.path k e
    rw [collectAll, collect_eq (s.push k) d, Declaration.placedClassesAll, List.map_append, hbelow,
      recordAll_append, bind_assoc, bind_assoc]
    refine bind_congr fun entries => ?_
    -- back from the declaration, the walk stands where it stood in front of it
    have hback : Collector.pop { s.push k with entries } = { s with entries } :=
      pop_push { s with entries } k
    rw [pure_bind, hback, collectAll_eq { s with entries } (k + 1) ds]

end

/-! ## Recorded classes -/

/-- Classes of different names are all recorded, and otherwise a name that comes up twice is
reported. -/
theorem recordAll_cases (entries es : List ClassEntry) (hnd : (entries.map (·.name)).Nodup) :
    (((entries ++ es).map (·.name)).Nodup ∧ recordAll entries es = .ok (entries ++ es)) ∨
      ∃ name, 1 < ((entries ++ es).map (·.name)).count name ∧
        recordAll entries es = .error (.duplicateClass name) := by
  induction es generalizing entries with
  | nil =>
    rw [List.append_nil]
    exact .inl ⟨hnd, rfl⟩
  | cons e es ih =>
    have hstep : recordAll entries (e :: es) = record entries e >>= (recordAll · es) := rfl
    by_cases hmem : e.name ∈ entries.map (·.name)
    · refine .inr ⟨e.name, ?_, ?_⟩
      · have hpos := List.count_pos_iff.2 hmem
        rw [List.map_append, List.map_cons, List.count_append, List.count_cons_self]
        omega
      · rw [hstep, record, if_pos hmem]
        rfl
    · have hnd' : ((entries ++ [e]).map (·.name)).Nodup := by
        rw [List.map_append, List.map_singleton, ← List.concat_eq_append]
        exact hnd.concat hmem
      rw [hstep, record, if_neg hmem, List.append_cons]
      exact ih (entries ++ [e]) hnd'

end Collector

namespace ClassIndex

variable {forest : Forest} {i : ClassIndex}

/-- The entry of a class at its position. -/
def entryOf (e : Position × ClassDecl) : ClassEntry := ⟨e.2.fullName, e.2.body.base, e.1⟩

theorem names_placedClasses (forest : Forest) :
    (forest.placedClasses.map entryOf).map (·.name) = forest.classes.map (·.fullName) := by
  rw [← Forest.snd_placedClasses, List.map_map, List.map_map]
  rfl

/-- The index of a forest has its placed classes.  Where a name comes up twice among them there is
no index, and the error names it. -/
theorem ofForest_cases (forest : Forest) :
    ((forest.classes.map (·.fullName)).Nodup ∧
        ofForest forest = .ok ⟨forest.placedClasses.map entryOf⟩) ∨
      ∃ name, 1 < (forest.classes.map (·.fullName)).count name ∧
        ofForest forest = .error (.duplicateClass name) := by
  have hwalk : ofForest forest
      = Collector.recordAll [] (forest.placedClasses.map entryOf) >>= fun es => .ok ⟨es⟩ := by
    rw [ofForest, Collector.collectAll_eq, bind_assoc]
    rfl
  rw [hwalk, ← names_placedClasses]
  rcases Collector.recordAll_cases [] (forest.placedClasses.map entryOf) List.nodup_nil with
    ⟨hnd, hrecorded⟩ | ⟨name, hcount, hrecorded⟩
  · exact .inl ⟨hnd, by rw [hrecorded]; rfl⟩
  · exact .inr ⟨name, hcount, by rw [hrecorded]; rfl⟩

/-- A forest has an index when no two classes share a full name. -/
theorem ofForest_eq_ok_iff :
    ofForest forest = .ok i ↔
      (forest.classes.map (·.fullName)).Nodup ∧ i = ⟨forest.placedClasses.map entryOf⟩ := by
  rcases ofForest_cases forest with ⟨hnd, hok⟩ | ⟨name, hcount, herror⟩
  · simp [hok, hnd, eq_comm]
  · have hnot : ¬ (forest.classes.map (·.fullName)).Nodup := fun hnd =>
      absurd hcount (Nat.not_lt.2 (List.nodup_iff_count_le_one.1 hnd name))
    simp [herror, hnot]

/-- The names of an index are those of the classes of its forest. -/
theorem names_ofForest (h : ofForest forest = .ok i) :
    i.names = forest.classes.map (·.fullName) := by
  obtain ⟨-, rfl⟩ := ofForest_eq_ok_iff.1 h
  exact names_placedClasses forest

/-- The classes of a forest with an index have distinct names. -/
theorem nodup_fullNames (h : ofForest forest = .ok i) :
    (forest.classes.map (·.fullName)).Nodup := (ofForest_eq_ok_iff.1 h).1

/-- The names of an index are distinct. -/
theorem nodup_names (h : ofForest forest = .ok i) : i.names.Nodup := by
  rw [names_ofForest h]
  exact nodup_fullNames h

/-- A class of the forest is in its index. -/
theorem mem_names (h : ofForest forest = .ok i) {c : ClassDecl} (hc : c ∈ forest.classes) :
    c.fullName ∈ i.names := by
  rw [names_ofForest h]
  exact List.mem_map_of_mem hc

/-- A name in the index of a forest is that of a class. -/
theorem exists_of_mem_names (h : ofForest forest = .ok i) {name : String} (hname : name ∈ i.names) :
    ∃ c ∈ forest.classes, c.fullName = name := by
  rw [names_ofForest h] at hname
  exact List.mem_map.1 hname

/-- Changing classes, not their bases, leaves the index of a forest. -/
theorem ofForest_mapClasses (h : ofForest forest = .ok i) {g : ClassDecl → ClassBody}
    (hbase : ∀ c ∈ forest.classes, (g c).base = c.body.base) :
    ofForest (forest.mapClasses g) = .ok i := by
  obtain ⟨hnd, rfl⟩ := ofForest_eq_ok_iff.1 h
  refine ofForest_eq_ok_iff.2 ⟨?_, ?_⟩
  · rw [Forest.classes_mapClasses, List.map_map]
    exact hnd
  · rw [Forest.placedClasses_mapClasses, List.map_map]
    refine congrArg ClassIndex.mk (List.map_congr_left fun e he => ?_)
    have hc : e.2 ∈ forest.classes := by
      rw [← Forest.snd_placedClasses]
      exact List.mem_map_of_mem he
    simp [entryOf, hbase e.2 hc]

/-! ## Going down to a class -/

/-- The way down to a class leads to its position. -/
theorem path?_eq_some (h : ofForest forest = .ok i) {p : Position} {c : ClassDecl}
    (hp : forest.classAt? p = some c) : i.path? c.fullName = some p := by
  have hnd := nodup_names h
  obtain ⟨-, rfl⟩ := ofForest_eq_ok_iff.1 h
  have hentry := List.mem_map_of_mem (f := entryOf) (Forest.mem_placedClasses.2 hp)
  rw [path?]
  exact congrArg (Option.map ClassEntry.path) (find?_entry hnd hentry)

/-- There is no way down to a name outside the index. -/
theorem path?_eq_none {name : String} (hname : name ∉ i.names) : i.path? name = none := by
  have hnone : i.entries.find? (·.name == name) = none :=
    List.find?_eq_none.2 fun e he heq => hname (beq_iff_eq.1 heq ▸ List.mem_map_of_mem he)
  rw [path?, hnone]
  rfl

/-- A class is found under its name. -/
theorem class?_eq_some (h : ofForest forest = .ok i) {c : ClassDecl} (hc : c ∈ forest.classes) :
    i.class? forest c.fullName = some c := by
  obtain ⟨p, hp⟩ := Forest.mem_classes_iff.1 hc
  rw [class?, path?_eq_some h hp, Option.bind_some, hp]

/-- A change to the class of a name is made to it alone. -/
theorem changeClass?_eq_some (h : ofForest forest = .ok i) {c : ClassDecl}
    (hc : c ∈ forest.classes) (f : ClassBody → ClassBody) :
    i.changeClass? forest c.fullName f
      = some (forest.mapClasses fun c' => if c'.fullName = c.fullName then f c'.body else c'.body)
        := by
  obtain ⟨p, hp⟩ := Forest.mem_classes_iff.1 hc
  rw [changeClass?, path?_eq_some h hp, Option.bind_some]
  refine Forest.changeAt?_eq_some hp (if_pos rfl) fun q c' hq hc' => if_neg fun hname => hq ?_
  exact Forest.classAt?_inj (nodup_fullNames h) hc' hp hname

/-- Nothing is found under a name outside the index. -/
theorem class?_eq_none {name : String} (hname : name ∉ i.names) (forest : Forest) :
    i.class? forest name = none := by
  rw [class?, path?_eq_none hname]
  rfl

/-- Nothing is changed under a name outside the index. -/
theorem changeClass?_eq_none {name : String} (hname : name ∉ i.names) (forest : Forest)
    (f : ClassBody → ClassBody) : i.changeClass? forest name f = none := by
  rw [changeClass?, path?_eq_none hname]
  rfl

end ClassIndex

end ApiTypings
