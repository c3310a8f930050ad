/-
# Positions in a forest

A position leads to one declaration of a forest: the number of a root, then the number of a child,
and so on down.  The classes of a forest are listed with their positions, so that going down to a
class, and changing it there, can be compared with what is known of all classes.

* `mem_placedClasses` : the list has every class at its position, and nothing else;
* `placedClasses_mapClasses` : changing classes moves none of them;
* `changeAt?_eq_some` : a change at the position of a class is a change to all classes that leaves
  the others as they are.
-/
import ApiTypings.Proofs.Forest.Nodes
import Mathlib.Data.List.Nodup

namespace ApiTypings

namespace Declaration

/-! ## Placed classes -/

mutual

/-- The classes in a declaration with their positions, outer ones first. -/
def placedClasses : Declaration → List (Position × ClassDecl)
  | node h b cs => (ownClass h b).map (([] : Position), ·) ++ placedClassesAll 0 cs

/-- The classes in declarations, the first of which has the number `k`. -/
def placedClassesAll (k : Nat) : List Declaration → List (Position × ClassDecl)
  | [] => []
  | d :: ds => (placedClasses d).map (fun e => (k :: e.1, e.2)) ++ placedClassesAll (k + 1) ds

end

theorem classAt?_nil (d : Declaration) : classAt? [] d = d.class? := rfl

theorem classAt?_cons (k : Nat) (p : Position) (d : Declaration) :
    classAt? (k :: p) d = d.children[k]?.bind (classAt? p) := by
  rw [classAt?, at?, Option.bind_assoc]
  rfl

/-- A declaration is a class when it is its own class. -/
theorem mem_ownClass {h : Header} {b : Body} (cs : List Declaration) {c : ClassDecl} :
    c ∈ ownClass h b ↔ class? (node h b cs) = some c := by
  cases b <;> simp [ownClass, class?, Body.class?, body, fullName, header, eq_comm]

mutual

theorem mem_placedClasses : ∀ (d : Declaration) (p : Position) (c : ClassDecl),
    (p, c) ∈ placedClasses d ↔ classAt? p d = some c
  | node h b cs, p, c => by
    rw [placedClasses, List.mem_append, mem_placedClassesAll cs 0 p c]
    cases p with
    | nil => simp [classAt?_nil, ← mem_ownClass cs]
    | cons k p =>
      rw [classAt?_cons, children]
      constructor
      · rintro (hown | ⟨j, q, heq, hc⟩)
        · simp at hown
        · rw [Nat.zero_add] at heq
          obtain ⟨rfl, rfl⟩ := List.cons.inj heq
          exact hc
      · exact fun hc => Or.inr ⟨k, p, by rw [Nat.zero_add], hc⟩

theorem mem_placedClassesAll : ∀ (ds : List Declaration) (k : Nat) (p : Position) (c : ClassDecl),
    (p, c) ∈ placedClassesAll k ds ↔
      ∃ j q, p = (k + j) :: q ∧ ds[j]?.bind (classAt? q) = some c
  | [], _, _, _ => by simp [placedClassesAll]
  | d :: ds, k, p, c => by
    rw [placedClassesAll, List.mem_append, mem_placedClassesAll ds (k + 1) p c, List.mem_map]
    constructor
    · rintro (⟨⟨q, c'⟩, hq, heq⟩ | ⟨j, q, rfl, hc⟩)
      · obtain ⟨rfl, rfl⟩ := Prod.mk.inj heq
        exact ⟨0, q, rfl, (mem_placedClasses d q c').1 hq⟩
      · exact ⟨j + 1, q, by rw [Nat.add_right_comm, Nat.add_assoc], hc⟩
    · rintro ⟨j, q, rfl, hc⟩
      cases j with
      | zero => exact Or.inl ⟨(q, c), (mem_placedClasses d q c).2 hc, rfl⟩
      | succ j => exact Or.inr ⟨j, q, by rw [Nat.add_right_comm, Nat.add_assoc], hc⟩

end

mutual

/-- Without their positions these are the classes of a declaration. -/
theorem snd_placedClasses : ∀ d : Declaration, (placedClasses d).map Prod.snd = d.classes
  | node h b cs => by
    rw [placedClasses, classes, List.map_append, snd_placedClassesAll 0 cs, List.map_map]
    exact congrArg (· ++ _) (List.map_id _)

theorem snd_placedClassesAll : ∀ (k : Nat) (ds : List Declaration),
    (placedClassesAll k ds).map Prod.snd = classesAll ds
  | _, [] => rfl
  | k, d :: ds => by
    rw [placedClassesAll, classesAll, List.map_append, snd_placedClassesAll (k + 1) ds,
      List.map_map, ← snd_placedClasses d]
    rfl

end

/-! ## Changed classes -/

section

variable (g : ClassDecl → ClassBody)

mutual

/-- Changing classes moves none of them. -/
theorem placedClasses_mapClasses : ∀ d : Declaration,
    placedClasses (mapClasses g d)
      = (placedClasses d).map fun e => (e.1, ⟨e.2.fullName, g e.2⟩)
  | node h b cs => by
    rw [mapClasses, placedClasses, placedClasses, ownClass_changeClass,
      placedClassesAll_mapClassesAll 0 cs, List.map_append, List.map_map, List.map_map]
    rfl

theorem placedClassesAll_mapClassesAll : ∀ (k : Nat) (ds : List Declaration),
    placedClassesAll k (mapClassesAll g ds)
      = (placedClassesAll k ds).map fun e => (e.1, ⟨e.2.fullName, g e.2⟩)
  | _, [] => rfl
  | k, d :: ds => by
    rw [mapClassesAll, placedClassesAll, placedClassesAll, placedClasses_mapClasses d,
      placedClassesAll_mapClassesAll (k + 1) ds, List.map_append, List.map_map, List.map_map]
    rfl

end

variable {g}

/-- Where every class stays as it is, the declaration does. -/
theorem mapClasses_eq_self {d : Declaration}
    (h : ∀ p c, classAt? p d = some c → g c = c.body) : mapClasses g d = d := by
  refine (mapClasses_congr d fun c hc => ?_).trans (mapClasses_body d)
  rw [← snd_placedClasses] at hc
  obtain ⟨⟨p, c'⟩, hmem, rfl⟩ := List.mem_map.1 hc
  exact h p c' ((mem_placedClasses d p c').1 hmem)

/-- A change to all declarations that leaves the classes in all but one is a change to that one. -/
theorem mapClassesAll_eq_set {ds : List Declaration} {k : Nat} {d : Declaration}
    (hd : ds[k]? = some d)
    (hothers : ∀ j q c, j ≠ k → ds[j]?.bind (classAt? q) = some c → g c = c.body) :
    mapClassesAll g ds = ds.set k (mapClasses g d) := by
  rw [mapClassesAll_eq_map]
  refine List.ext_getElem? fun j => ?_
  by_cases hj : j = k
  · subst hj
    obtain ⟨hlt, -⟩ := List.getElem?_eq_some_iff.1 hd
    rw [List.getElem?_map, hd, List.getElem?_set_self hlt]
    rfl
  · rw [List.getElem?_map, List.getElem?_set_ne (Ne.symm hj)]
    cases he : ds[j]? with
    | none => rfl
    | some e =>
      have hself : mapClasses g e = e :=
        mapClasses_eq_self fun q c hc => hothers j q c hj (by rw [he]; exact hc)
      rw [Option.map_some, hself]

/-- A change at the position of a class is a change to all classes that leaves the others. -/
theorem changeAt?_eq_some {f : ClassBody → ClassBody} {p : Position} {d : Declaration}
    {c : ClassDecl} (hc : classAt? p d = some c) (hg : g c = f c.body)
    (hothers : ∀ q c', q ≠ p → classAt? q d = some c' → g c' = c'.body) :
    changeAt? f p d = some (mapClasses g d) := by
  induction p generalizing d with
  | nil =>
    obtain ⟨h, b, cs⟩ := d
    have hcs : mapClassesAll g cs = cs := by
      rw [mapClassesAll_eq_map]
      refine (List.map_congr_left fun e he => ?_).trans (List.map_id cs)
      obtain ⟨j, hj⟩ := List.getElem?_of_mem he
      refine mapClasses_eq_self fun q c' hc' => hothers (j :: q) c' (List.cons_ne_nil _ _) ?_
      rw [classAt?_cons, children, hj]
      exact hc'
    cases b with
    | ofClass own =>
      obtain rfl := Option.some.inj hc
      have hown : g ⟨h.fullName, own⟩ = f own := hg
      rw [mapClasses, hcs, changeClass, hown]
      rfl
    | _ => exact absurd hc (by simp [classAt?_nil, class?, body, Body.class?])
  | cons k p ih =>
    obtain ⟨h, b, cs⟩ := d
    rw [classAt?_cons, children] at hc
    obtain ⟨child, hchild, hcp⟩ := Option.bind_eq_some_iff.1 hc
    have hbody : changeClass g h.fullName b = b := by
      cases b with
      | ofClass b => exact congrArg Body.ofClass (hothers [] _ (List.cons_ne_nil k p).symm rfl)
      | _ => rfl
    have hbelow : changeAt? f p child = some (mapClasses g child) := by
      refine ih hcp fun q c' hq hc' => hothers (k :: q) c' (fun heq => hq (List.cons.inj heq).2) ?_
      rw [classAt?_cons, children, hchild]
      exact hc'
    rw [mapClasses, hbody, mapClassesAll_eq_set hchild fun j q c' hj hc' =>
      hothers (j :: q) c' (fun heq => hj (List.cons.inj heq).1) ((classAt?_cons ..).trans hc')]
    rw [changeAt?, hchild, Option.bind_some, hbelow]
    rfl

end

end Declaration

namespace Forest

open Declaration

variable {forest : Forest}

/-! ## Positions from the roots -/

/-- The classes of a forest with their positions. -/
def placedClasses (forest : Forest) : List (Position × ClassDecl) := placedClassesAll 0 forest

/-- The list has every class at its position, and nothing else. -/
theorem mem_placedClasses {p : Position} {c : ClassDecl} :
    (p, c) ∈ forest.placedClasses ↔ forest.classAt? p = some c := by
  rw [placedClasses, mem_placedClassesAll]
  constructor
  · rintro ⟨j, q, rfl, hc⟩
    rwa [Nat.zero_add]
  · intro h
    cases p with
    | nil => exact absurd h (by simp [classAt?])
    | cons k p => exact ⟨k, p, by rw [Nat.zero_add], h⟩

theorem snd_placedClasses (forest : Forest) :
    forest.placedClasses.map Prod.snd = forest.classes :=
  snd_placedClassesAll 0 forest

/-- The classes of a forest are those at some position. -/
theorem mem_classes_iff {c : ClassDecl} : c ∈ forest.classes ↔ ∃ p, forest.classAt? p = some c := by
  rw [← snd_placedClasses, List.mem_map]
  constructor
  · rintro ⟨⟨p, c'⟩, hmem, rfl⟩
    exact ⟨p, mem_placedClasses.1 hmem⟩
  · rintro ⟨p, hp⟩
    exact ⟨(p, c), mem_placedClasses.2 hp, rfl⟩

theorem placedClasses_mapClasses (g : ClassDecl → ClassBody) :
    (forest.mapClasses g).placedClasses
      = forest.placedClasses.map fun e => (e.1, ⟨e.2.fullName, g e.2⟩) :=
  placedClassesAll_mapClassesAll g 0 forest

/-- Where no two classes share a name, a class is known by its name. -/
theorem classAt?_inj (hnd : (forest.classes.map (·.fullName)).Nodup) {p q : Position}
    {c c' : ClassDecl} (hp : forest.classAt? p = some c) (hq : forest.classAt? q = some c')
    (hname : c.fullName = c'.fullName) : p = q := by
  rw [← snd_placedClasses, List.map_map] at hnd
  have heq := List.inj_on_of_nodup_map hnd (mem_placedClasses.2 hp) (mem_placedClasses.2 hq) hname
  exact (Prod.mk.inj heq).1

/-- A change at the position of a class is a change to all classes that leaves the others. -/
theorem changeAt?_eq_some {g : ClassDecl → ClassBody} {f : ClassBody → ClassBody} {p : Position}
    {c : ClassDecl} (hp : forest.classAt? p = some c) (hg : g c = f c.body)
    (hothers : ∀ q c', q ≠ p → forest.classAt? q = some c' → g c' = c'.body) :
    forest.changeAt? f p = some (forest.mapClasses g) := by
  cases p with
  | nil => exact absurd hp (by simp [classAt?])
  | cons k p =>
    obtain ⟨d, hd, hc⟩ := Option.bind_eq_some_iff.1 hp
    have hbelow : Declaration.changeAt? f p d = some (Declaration.mapClasses g d) := by
      refine Declaration.changeAt?_eq_some hc hg fun q c' hq hc' => ?_
      refine hothers (k :: q) c' (fun heq => hq (List.cons.inj heq).2) ?_
      rw [classAt?, hd]
      exact hc'
    rw [mapClasses, mapClassesAll_eq_set hd fun j q c' hj hc' =>
      hothers (j :: q) c' (fun heq => hj (List.cons.inj heq).1) hc']
    rw [changeAt?, hd, Option.bind_some, hbelow]
    rfl

end Forest

end ApiTypings
