/-
# Cutting at outer bars

Where a type is cut can be said by places.  An outer bar is a bar with no bracket open in front of
it, where a closing bracket that closes nothing is passed over, and the pieces are what stands
between the outer bars.

A splitter that counts closing brackets as negative depth agrees, as long as no beginning of the
text closes more brackets than it opens.

The alternatives, joined by bars, are cut at the new bars and nowhere else: neither blanks nor the
empty pieces that were left out have brackets, and behind every alternative but the last one all
brackets are closed, however the brackets of the text are placed.

* `slices_outerBars` : the pieces of a cut are what stands between the outer bars;
* `signedPieces_eq` : the splitter with a signed depth;
* `alternatives_joined_alternatives` : the alternatives are read back from the joined text;
* `alternativesOf_eq_slices` : all three for the alternatives of a string.
-/
import ApiTypings.Proofs.TypeExpr.Pieces
import Mathlib.Data.List.Infix

namespace ApiTypings.TypeExpr

/-! ## Places of outer bars -/

/-- The places of the bars with no bracket open in front, when the text starts inside `depth`
brackets. -/
def outerBars (depth : Nat) (cs : List Char) : List Nat :=
  (List.range cs.length).filter fun k => cs[k]? == some '|' && depthBehind depth (cs.take k) == 0

/-- What stands between some places of a text, in order, from the place `start` on. -/
def slices (cs : List Char) (start : Nat) : List Nat → List (List Char)
  | [] => [cs.drop start]
  | k :: ks => (cs.take k).drop start :: slices cs (k + 1) ks

/-- One more character in front moves the outer bars by one place, and may be one itself. -/
theorem outerBars_cons (depth : Nat) (c : Char) (cs : List Char) :
    outerBars depth (c :: cs) = (if c = '|' ∧ depth = 0 then [0] else [])
      ++ (outerBars (depthAfter depth c) cs).map (· + 1) := by
  have hrest : ((fun k => (c :: cs)[k]? == some '|' && depthBehind depth ((c :: cs).take k) == 0)
      ∘ Nat.succ) = fun k => cs[k]? == some '|'
        && depthBehind (depthAfter depth c) (cs.take k) == 0 := by
    funext k
    show ((c :: cs)[k + 1]? == some '|' && depthBehind depth ((c :: cs).take (k + 1)) == 0) = _
    rw [List.getElem?_cons_succ, List.take_succ_cons, depthBehind_cons]
  rw [outerBars, List.length_cons, List.range_succ_eq_map, List.filter_cons, List.filter_map, hrest]
  by_cases hbar : c = '|' ∧ depth = 0
  · rw [if_pos hbar, if_pos (by simp [hbar, depthBehind])]
    rfl
  · rw [if_neg hbar, if_neg (by simpa [depthBehind] using hbar)]
    rfl

/-- Behind the first character the slices do not see it. -/
theorem slices_cons_succ (c : Char) (cs : List Char) (start : Nat) (ks : List Nat) :
    slices (c :: cs) (start + 1) (ks.map (· + 1)) = slices cs start ks := by
  induction ks generalizing start with
  | nil => rfl
  | cons k ks ih => rw [List.map_cons, slices, slices, ih, List.take_succ_cons, List.drop_succ_cons]

/-- The first character belongs to the first slice. -/
theorem slices_cons_zero (c : Char) (cs : List Char) (ks : List Nat) :
    slices (c :: cs) 0 (ks.map (· + 1)) = pushFront c (slices cs 0 ks) := by
  cases ks with
  | nil => rfl
  | cons k ks => rw [List.map_cons, slices, slices, slices_cons_succ]; rfl

/-- The pieces of a cut are what stands between the outer bars. -/
theorem slices_outerBars (depth : Nat) (cs : List Char) :
    slices cs 0 (outerBars depth cs) = cutAtBars depth cs := by
  induction cs generalizing depth with
  | nil => rfl
  | cons c cs ih =>
    rw [outerBars_cons, cutAtBars]
    by_cases hbar : c = '|' ∧ depth = 0
    · rw [if_pos hbar, if_pos hbar, List.singleton_append, slices, slices_cons_succ, ih, hbar.1,
        hbar.2]
      rfl
    · rw [if_neg hbar, if_neg hbar, List.nil_append, slices_cons_zero, ih]

/-! ## A signed depth -/

/-- The signed bracket depth after a character. -/
def signedAfter (depth : Int) (c : Char) : Int :=
  if c = '<' then depth + 1 else if c = '>' then depth - 1 else depth

/-- A splitter on its way through a text. -/
structure SignedCut where
  /-- The pieces that are complete. -/
  complete : List (List Char)
  /-- The piece at hand. -/
  current : List Char
  /-- How many more brackets were opened than closed. -/
  depth : Int

namespace SignedCut

/-- One more character: a bar at depth zero completes a piece. -/
def read (s : SignedCut) (c : Char) : SignedCut :=
  let depth := signedAfter s.depth c
  if c = '|' ∧ depth = 0 then ⟨s.complete ++ [s.current], [], depth⟩
  else ⟨s.complete, s.current ++ [c], depth⟩

/-- All pieces, the one at hand included. -/
def pieces (s : SignedCut) : List (List Char) := s.complete ++ [s.current]

end SignedCut

/-- The trimmed pieces of a text between the bars where as many brackets were opened as closed. -/
def signedPieces (cs : List Char) : List (List Char) :=
  (cs.foldl SignedCut.read ⟨[], [], 0⟩).pieces.map Text.trim

/-- A signed depth that stays above zero is the clamped depth. -/
theorem signedAfter_eq {depth : Nat} {c : Char} (h : 0 ≤ depth + excess [c]) :
    signedAfter depth c = depthAfter depth c := by
  rcases bracket_cases c with rfl | rfl | ⟨hopen, hclose⟩
  · rfl
  · have hpos : 0 ≤ (depth : Int) - 1 := h
    show (depth : Int) - 1 = ((depth - 1 : Nat) : Int)
    omega
  · rw [signedAfter, if_neg hopen, if_neg hclose, depthAfter_of_ne hopen hclose]

theorem signedAfter_eq_add (depth : Int) (c : Char) : signedAfter depth c = depth + excess [c] := by
  rcases bracket_cases c with rfl | rfl | ⟨hopen, hclose⟩
  · rfl
  · rfl
  · have hnone : excess [c] = 0 :=
      excess_of_no_bracket (by simpa using Ne.symm hopen) (by simpa using Ne.symm hclose)
    rw [signedAfter, if_neg hopen, if_neg hclose, hnone, add_zero]

/-- On a text that never closes more brackets than are open the splitter cuts at the outer bars.
The first piece of the rest belongs to the piece at hand. -/
theorem pieces_foldl_read (complete : List (List Char)) (current : List Char) {depth : Nat}
    {cs : List Char} (h : ∀ p, p <+: cs → 0 ≤ depth + excess p) :
    (cs.foldl SignedCut.read ⟨complete, current, depth⟩).pieces
      = complete ++ (cutAtBars depth cs).modifyHead (current ++ ·) := by
  induction cs generalizing complete current depth with
  | nil => simp [SignedCut.pieces, cutAtBars]
  | cons c cs ih =>
    have hdepth : signedAfter depth c = depthAfter depth c :=
      signedAfter_eq (h [c] (List.prefix_append [c] cs))
    have hrest : ∀ p, p <+: cs → 0 ≤ (depthAfter depth c : Int) + excess p := by
      intro p hp
      have hlonger := h (c :: p) ((List.prefix_cons_inj c).2 hp)
      rw [excess_cons] at hlonger
      rw [← hdepth, signedAfter_eq_add]
      omega
    rw [List.foldl_cons, SignedCut.read, cutAtBars]
    dsimp only
    rw [hdepth]
    by_cases hbar : c = '|'
    · have hsame : depthAfter depth c = depth := by rw [hbar]; rfl
      rw [hsame] at hrest ⊢
      by_cases hzero : depth = 0
      · rw [if_pos ⟨hbar, by rw [hzero]; rfl⟩, if_pos ⟨hbar, hzero⟩, ih _ _ hrest, hzero]
        obtain ⟨p, ps, hcut⟩ := List.exists_cons_of_ne_nil (cutAtBars_ne_nil 0 cs)
        simp [hcut]
      · rw [if_neg fun hin => hzero (by exact_mod_cast hin.2), if_neg fun hin => hzero hin.2,
          ih _ _ hrest]
        obtain ⟨p, ps, hcut⟩ := List.exists_cons_of_ne_nil (cutAtBars_ne_nil depth cs)
        simp [hcut, pushFront]
    · rw [if_neg fun hin => hbar hin.1, if_neg fun hin => hbar hin.1, ih _ _ hrest]
      obtain ⟨p, ps, hcut⟩ := List.exists_cons_of_ne_nil (cutAtBars_ne_nil (depthAfter depth c) cs)
      simp [hcut, pushFront]

/-- The splitter with a signed depth agrees where that depth does not fall below zero. -/
theorem signedPieces_eq {cs : List Char} (h : ∀ p, p <+: cs → 0 ≤ excess p) :
    signedPieces cs = (cutAtBars 0 cs).map Text.trim := by
  have hpieces : (cs.foldl SignedCut.read ⟨[], [], (0 : Nat)⟩).pieces
      = [] ++ (cutAtBars 0 cs).modifyHead ([] ++ ·) :=
    pieces_foldl_read [] [] fun p hp => by simpa using h p hp
  obtain ⟨p, ps, hcut⟩ := List.exists_cons_of_ne_nil (cutAtBars_ne_nil 0 cs)
  rw [signedPieces, show (0 : Int) = ((0 : Nat) : Int) from rfl, hpieces, hcut]
  simp

/-! ## Joining and cutting again -/

/-- The alternatives are read back from the joined text. -/
theorem alternatives_joined_alternatives (cs : List Char) :
    alternatives (['|'].intercalate (alternatives cs)) = alternatives cs := by
  have hnil : Text.isBlankText [] = true := rfl
  have hjoined : alternatives (['|'].intercalate (alternatives cs))
      = (alternatives cs).flatMap alternatives :=
    alternatives_intercalate_of_closed hnil hnil (pairwise_alternatives cs)
  calc alternatives (['|'].intercalate (alternatives cs))
      = (alternatives cs).flatMap alternatives := hjoined
    _ = (alternatives cs).flatMap fun p => [p] :=
        List.flatMap_congr fun _ hp => alternatives_of_mem_alternatives hp
    _ = alternatives cs := List.flatMap_singleton' _

/-- **Cutting at outer bars.**  The alternatives of a type are what stands between its outer bars,
trimmed, without blank pieces.  Where no beginning of the type closes more brackets than it opens, a
splitter with a signed depth finds the same.  And the alternatives are read back when they are
joined by bars. -/
theorem alternativesOf_eq_slices (raw : String) :
    alternativesOf raw = (((slices raw.toList 0 (outerBars 0 raw.toList)).map Text.trim).filter
        (!·.isEmpty)).map .ofList ∧
      ((∀ p, p <+: raw.toList → 0 ≤ excess p) →
        alternativesOf raw = ((signedPieces raw.toList).filter (!·.isEmpty)).map .ofList) ∧
      alternativesOf ("|".intercalate (alternativesOf raw)) = alternativesOf raw := by
  refine ⟨?_, fun h => ?_, ?_⟩
  · rw [slices_outerBars]
    rfl
  · rw [signedPieces_eq h]
    rfl
  · have hchars : ("|".intercalate (alternativesOf raw)).toList
        = ['|'].intercalate (alternatives raw.toList) := by
      have hread : String.toList ∘ String.ofList = id := funext fun _ => String.toList_ofList
      rw [String.toList_intercalate, alternativesOf, List.map_map, hread, List.map_id]
      rfl
    rw [alternativesOf, hchars, alternatives_joined_alternatives]
    rfl

/-- A type with a blank piece and a bracket that is never closed. -/
def openUnion : String := "Promise<A|B> | | Map<string|C"

theorem alternativesOf_eq_slices_openUnion :
    (∀ p, p <+: openUnion.toList → 0 ≤ excess p) ∧
      alternativesOf openUnion
        = ((signedPieces openUnion.toList).filter (!·.isEmpty)).map .ofList ∧
      alternativesOf openUnion = ["Promise<A|B>", "Map<string|C"] := by
  have hprefixes : ∀ p ∈ openUnion.toList.inits, 0 ≤ excess p := by decide +kernel
  have hopen : ∀ p, p <+: openUnion.toList → 0 ≤ excess p := fun p hp =>
    hprefixes p ((List.mem_inits _ _).2 hp)
  exact ⟨hopen, (alternativesOf_eq_slices openUnion).2.1 hopen, by decide +kernel⟩

/-- Behind a surplus closing bracket the two splitters differ. -/
example : alternatives "A>|B".toList = ["A>".toList, "B".toList] ∧
    signedPieces "A>|B".toList = ["A>|B".toList] := by
  decide

end ApiTypings.TypeExpr
