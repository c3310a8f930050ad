/-
# Spellings that break off

A spelling that is cut at one of its inner bars breaks off inside of a generic: the closing bracket
of the generic is behind the cut.  Whatever stands at the end of such a text, the reader does not
find that bracket.  It takes the closing bracket of a term inside for it, and then that term breaks
off; or it finds none, and the text is written with one more.

So a spelling that is cut is not read again as what it was, and a spelling that keeps its brackets
is that of a firm term.

* `isOpen_of_append_bar` : what stands in front of a bar of a spelling breaks off;
* `excess_lt_of_isOpen` : a closing bracket is added to a text that breaks off;
* `uncut_of_kept`, `isFirm_of_kept` : terms to whose spellings none is added.
-/
import ApiTypings.Proofs.TypeExpr.Made

namespace ApiTypings

namespace TypeExpr

/-! ## Where a character stands -/

/-- A character that is not in the first of two texts stands in the second one. -/
theorem append_eq_append_cons {c : Char} {xs ys before behind : List Char} (hc : c ∉ xs)
    (h : xs ++ ys = before ++ c :: behind) :
    ∃ part, before = xs ++ part ∧ ys = part ++ c :: behind := by
  rcases List.append_eq_append_iff.1 h with ⟨part, hbefore, hys⟩ | ⟨part, hxs, hrest⟩
  · exact ⟨part, hbefore, hys⟩
  · cases part with
    | nil => exact ⟨[], by simpa using hxs.symm, hrest.symm⟩
    | cons d part =>
      obtain ⟨rfl, -⟩ := List.cons.inj hrest
      exact absurd (by rw [hxs]; simp) hc

/-- A character that is not in the second of two texts stands in the first one. -/
theorem append_eq_append_cons_left {c : Char} {xs ys before behind : List Char} (hc : c ∉ ys)
    (h : xs ++ ys = before ++ c :: behind) : ∃ rest, xs = before ++ c :: rest := by
  rcases List.append_eq_append_iff.1 h with ⟨part, -, hys⟩ | ⟨part, hxs, hrest⟩
  · exact absurd (by rw [hys]; simp) hc
  · cases part with
    | nil => exact absurd (by rw [← List.nil_append ys, ← hrest]; simp) hc
    | cons d part =>
      obtain ⟨rfl, -⟩ := List.cons.inj hrest
      exact ⟨part, hxs⟩

/-- The two sides of the first opening bracket of a text. -/
theorem append_open_inj {front front' rest rest' : List Char} (h : '<' ∉ front) (h' : '<' ∉ front')
    (heq : front ++ '<' :: rest = front' ++ '<' :: rest') : front = front' ∧ rest = rest' := by
  have hfront : front = front' := by
    rw [← takeWhile_append_open h rest, heq, takeWhile_append_open h' rest']
  subst hfront
  exact ⟨rfl, (List.cons.inj (List.append_cancel_left heq)).2⟩

/-- A text that is too short for the second of two texts ends it. -/
theorem append_eq_append_of_mem {c : Char} {xs ys front ending : List Char} (hys : c ∈ ys)
    (hending : c ∉ ending) (h : xs ++ ys = front ++ ending) :
    ∃ part, front = xs ++ part ∧ ys = part ++ ending := by
  rcases List.append_eq_append_iff.1 h with hpart | ⟨part, -, hin⟩
  · exact hpart
  · exact absurd (by rw [hin]; exact List.mem_append_right _ hys) hending

end TypeExpr

namespace TypeTerm

open TypeExpr

/-! ## Terms in front of a bar -/

/-- Terms that may stand in front of a bar. -/
def AreFront (ts : List TypeTerm) : Prop := ∀ t ∈ ts, t.IsMade ∧ t.OwnsClosing

section

variable {t : TypeTerm} (h : t.IsMade)

include h

theorem IsMade.isNamed : t.IsNamed := by
  cases h with
  | mk hnamed _ _ _ => exact hnamed

theorem IsMade.isRead : t.IsRead := by
  cases h with
  | mk _ hread _ _ => exact hread

theorem IsMade.of_mem_inner {u : TypeTerm} (hu : u ∈ t.inner) : u.IsMade := by
  cases h with
  | mk _ _ hmade _ => exact hmade u hu

theorem IsMade.isSpelling : IsSpelling t.toChars := h.isRead.isSpelling

theorem IsMade.spelled : Spelled t := TypeTerm.spelled h.isNamed h.isRead

/-- The members of a list inside a term that stand in front of the last one. -/
theorem IsMade.areFront {ts : List TypeTerm} {last : TypeTerm} (hinner : t.inner = ts ++ [last]) :
    AreFront ts ∧ last.IsMade := by
  cases h with
  | mk _ _ hmade howns =>
    rw [hinner] at hmade howns
    refine ⟨fun u hu => ⟨hmade u (List.mem_append_left _ hu), ?_⟩, hmade last (by simp)⟩
    exact (List.pairwise_append.1 howns).2.2 u hu last (List.mem_singleton_self _)

end

/-! ## Spellings with bars behind them -/

/-- The spellings of some terms, each with a bar behind it. -/
def barred (ts : List TypeTerm) : List Char := (ts.map toChars).flatMap (· ++ ['|'])

@[simp] theorem barred_nil : barred [] = [] := rfl

theorem barred_cons (t : TypeTerm) (ts : List TypeTerm) :
    barred (t :: ts) = t.toChars ++ '|' :: barred ts := by
  simp [barred]

theorem barred_append (ts us : List TypeTerm) : barred (ts ++ us) = barred ts ++ barred us := by
  simp [barred]

theorem joined_concat (ts : List TypeTerm) (t : TypeTerm) :
    joined (ts ++ [t]) = barred ts ++ t.toChars := by
  rw [joined, List.map_append, List.map_singleton, intercalate_concat, barred]

/-- Where a bar can stand in such a text: behind a spelling, in a spelling, or behind all of
them. -/
theorem split_barred {ts : List TypeTerm} {last before behind : List Char}
    (h : barred ts ++ last = before ++ '|' :: behind) :
    (∃ us u vs, ts = us ++ u :: vs ∧ before = barred us ++ u.toChars) ∨
      (∃ us u vs part rest, ts = us ++ u :: vs ∧ before = barred us ++ part ∧
        u.toChars = part ++ '|' :: rest) ∨
      ∃ part, before = barred ts ++ part ∧ last = part ++ '|' :: behind := by
  induction ts generalizing before with
  | nil => exact Or.inr (Or.inr ⟨before, rfl, h⟩)
  | cons t ts ih =>
    rw [barred_cons, List.append_assoc, List.cons_append] at h
    rcases List.append_eq_append_iff.1 h with ⟨more, hbefore, hmore⟩ | ⟨more, hchars, hmore⟩
    · cases more with
      | nil => exact Or.inl ⟨[], t, ts, rfl, by simpa using hbefore⟩
      | cons c more =>
        obtain ⟨rfl, hrest⟩ := List.cons.inj hmore
        have hfront : ∀ us : List TypeTerm, ∀ part : List Char, more = barred us ++ part →
            before = barred (t :: us) ++ part := by
          rintro us part rfl
          rw [hbefore, barred_cons, List.append_assoc, List.cons_append]
        rcases ih hrest with ⟨us, u, vs, hts, hin⟩ | ⟨us, u, vs, part, rest, hts, hin, hu⟩ |
          ⟨part, hin, hlast⟩
        · exact Or.inl ⟨t :: us, u, vs, by rw [hts]; rfl, hfront us _ hin⟩
        · exact Or.inr (Or.inl ⟨t :: us, u, vs, part, rest, by rw [hts]; rfl, hfront us _ hin, hu⟩)
        · exact Or.inr (Or.inr ⟨part, hfront ts _ hin, hlast⟩)
    · cases more with
      | nil => exact Or.inl ⟨[], t, ts, rfl, by simpa using hchars.symm⟩
      | cons c more =>
        obtain ⟨rfl, -⟩ := List.cons.inj hmore
        exact Or.inr (Or.inl ⟨[], t, ts, before, more, rfl, rfl, hchars⟩)

/-- No spelling of a made term leaves a bracket open, so every bar behind one cuts. -/
theorem alternatives_barred_append {ts : List TypeTerm} (h : ∀ t ∈ ts, t.IsMade)
    (last : List Char) :
    alternatives (barred ts ++ last)
      = (ts.flatMap fun t => alternatives t.toChars) ++ alternatives last := by
  induction ts with
  | nil => rfl
  | cons t ts ih =>
    obtain ⟨ht, hts⟩ := List.forall_mem_cons.1 h
    have hdepth := Nat.le_zero.1 (ht.isNamed.depthBehind_toChars_le 0)
    rw [barred_cons, List.append_assoc, List.cons_append, alternatives_append_bar hdepth, ih hts,
      List.flatMap_cons, List.append_assoc]

theorem alternatives_joined_of_made {ts : List TypeTerm} (h : ∀ t ∈ ts, t.IsMade) :
    alternatives (joined ts) = ts.flatMap fun t => alternatives t.toChars := by
  rcases List.eq_nil_or_concat ts with rfl | ⟨us, u, rfl⟩
  · rfl
  · rw [List.concat_eq_append] at h ⊢
    rw [joined_concat, alternatives_barred_append fun t ht => h t (List.mem_append_left _ ht),
      List.flatMap_append, List.flatMap_singleton]

/-! ## Texts that break off -/

/-- A spelling that breaks off inside of brackets: behind the opening bracket, behind the spelling
of a whole term, or behind a spelling that breaks off. -/
inductive IsOpen : List Char → Prop where
  /-- Nothing stands behind the opening bracket. -/
  | start {front : List Char} (hfront : IsWrapper front) : IsOpen (front ++ '<' :: [])
  /-- The spelling of a term is whole. -/
  | whole {front : List Char} {ts : List TypeTerm} {t : TypeTerm} (hfront : IsWrapper front)
      (hts : AreFront ts) (ht : t.IsMade) (howns : t.OwnsClosing) :
      IsOpen (front ++ '<' :: (barred ts ++ t.toChars))
  /-- The spelling of a term breaks off. -/
  | inside {front part : List Char} {ts : List TypeTerm} (hfront : IsWrapper front)
      (hts : AreFront ts) (hpart : IsOpen part) : IsOpen (front ++ '<' :: (barred ts ++ part))

theorem isTrimmed_behind_open {front between last : List Char} (hfront : Text.IsTrimmed front)
    (hlast : Text.IsTrimmed last) (hne : last ≠ []) :
    Text.IsTrimmed (front ++ '<' :: (between ++ last)) := by
  cases front with
  | nil =>
    have hopen : Text.IsTrimmed ['<'] := Text.trim_eq_self_iff.1 (by decide)
    exact hopen.append hlast (by simp) hne between
  | cons c front =>
    have := hfront.append hlast (by simp) hne ('<' :: between)
    rwa [List.append_assoc] at this

theorem IsOpen.open_mem {cs : List Char} (h : IsOpen cs) : '<' ∈ cs := by
  cases h <;> simp

theorem IsOpen.trimmed {cs : List Char} (h : IsOpen cs) : Text.IsTrimmed cs := by
  induction h with
  | @start front hfront =>
    have hopen : Text.IsTrimmed ['<'] := Text.trim_eq_self_iff.1 (by decide)
    cases front with
    | nil => exact hopen
    | cons c front => simpa using hfront.trimmed.append hopen (by simp) (by simp) []
  | whole hfront _ ht _ =>
    exact isTrimmed_behind_open hfront.trimmed ht.isSpelling.trimmed ht.isSpelling.ne_nil
  | inside hfront _ hpart ih =>
    exact isTrimmed_behind_open hfront.trimmed ih (List.ne_nil_of_mem hpart.open_mem)

/-! ## Cuts at bars -/

/-- What stands in front of a bar behind an opening bracket breaks off, if this is so for the
spellings there. -/
theorem isOpen_of_bar {front last before behind : List Char} {ts : List TypeTerm}
    (hfront : IsWrapper front) (hts : AreFront ts)
    (hopen : ∀ t ∈ ts, ∀ part rest, t.toChars = part ++ '|' :: rest → IsOpen part)
    (hlast : ∀ part rest, last = part ++ '|' :: rest → IsOpen part)
    (h : front ++ '<' :: (barred ts ++ last) = before ++ '|' :: behind) : IsOpen before := by
  have hbar : '|' ∉ front ++ ['<'] := by simp [hfront.no_bar]
  rw [List.append_cons] at h
  obtain ⟨part, rfl, hpart⟩ := append_eq_append_cons hbar h
  rw [← List.append_cons]
  have hsub : ∀ {us : List TypeTerm} {u : TypeTerm} {vs : List TypeTerm}, ts = us ++ u :: vs →
      AreFront us ∧ u ∈ ts := by
    rintro us u vs rfl
    exact ⟨fun t ht => hts t (List.mem_append_left _ ht), by simp⟩
  rcases split_barred hpart with ⟨us, u, vs, heq, rfl⟩ | ⟨us, u, vs, part, rest, heq, rfl, hu⟩ |
    ⟨part, rfl, hin⟩
  · obtain ⟨hus, hmem⟩ := hsub heq
    exact .whole hfront hus (hts u hmem).1 (hts u hmem).2
  · obtain ⟨hus, hmem⟩ := hsub heq
    exact .inside hfront hus (hopen u hmem part rest hu)
  · exact .inside hfront hts (hlast part behind hin)

theorem IsMade.bar_not_mem_name {name : String} (h : (basic name).IsMade) : '|' ∉ name.toList := by
  cases h.isRead with
  | basic _ _ hbar => exact hbar

/-- What stands in front of a bar of a spelling breaks off. -/
theorem IsMade.isOpen_of_append_bar {t : TypeTerm} (h : t.IsMade) {before behind : List Char}
    (heq : t.toChars = before ++ '|' :: behind) : IsOpen before := by
  induction t using inner_induction generalizing before behind with
  | step t ih =>
    cases h.spelled with
    | name name hterm =>
      subst hterm
      have hbar := h.bar_not_mem_name
      rw [toChars] at heq
      exact absurd (by rw [heq]; simp) hbar
    | suffix name hterm =>
      subst hterm
      have hbar := (h.of_mem_inner (List.mem_singleton_self _)).bar_not_mem_name
      have hmem : '|' ∈ name.toList ++ "[]".toList := by
        rw [← toChars_array_of_oneName, heq]
        simp
      exact absurd ((List.mem_append.1 hmem).resolve_right (by decide)) hbar
    | bracketed front hfront hchars =>
      rw [hchars] at heq
      rcases List.eq_nil_or_concat t.inner with hnil | ⟨ts, last, hinner⟩
      · have hmem : '|' ∈ front ++ '<' :: (joined [] ++ ['>']) := by
          rw [← hnil, heq]
          simp
        exact absurd hmem (by simp [joined, hfront.no_bar])
      · rw [List.concat_eq_append] at hinner
        have hmem : ∀ u ∈ ts ++ [last], u ∈ t.inner := fun u hu => hinner ▸ hu
        rw [hinner, joined_concat, List.append_assoc] at heq
        refine isOpen_of_bar hfront (h.areFront hinner).1 (fun u hu part rest hpart => ?_)
          (fun part rest hpart => ?_) heq
        · have hu := hmem u (List.mem_append_left _ hu)
          exact ih u hu (h.of_mem_inner hu) hpart
        · -- the bar is not the closing bracket, so it is in the spelling of the last term
          have hlast := hmem last (by simp)
          obtain ⟨more, hin⟩ := append_eq_append_cons_left (by decide) hpart
          exact ih last hlast (h.of_mem_inner hlast) hin

/-- What stands in front of a bar of a text that breaks off breaks off too. -/
theorem IsOpen.of_append_bar {cs : List Char} (h : IsOpen cs) {before behind : List Char}
    (heq : cs = before ++ '|' :: behind) : IsOpen before := by
  have hopen : ∀ {ts : List TypeTerm}, AreFront ts → ∀ t ∈ ts, ∀ part rest,
      t.toChars = part ++ '|' :: rest → IsOpen part := fun hts t ht part rest hpart =>
    (hts t ht).1.isOpen_of_append_bar hpart
  induction h generalizing before behind with
  | @start front hfront =>
    have hmem : '|' ∈ front ++ ['<'] := by
      rw [heq]
      simp
    exact absurd hmem (by simp [hfront.no_bar])
  | whole hfront hts ht howns =>
    exact isOpen_of_bar hfront hts (hopen hts) (fun part rest h => ht.isOpen_of_append_bar h) heq
  | inside hfront hts hpart ih =>
    exact isOpen_of_bar hfront hts (hopen hts) (fun part rest h => ih h) heq

/-! ## Ends that look like those of a term -/

theorem getLast?_behind_open {front between last : List Char} (hne : last ≠ []) :
    (front ++ '<' :: (between ++ last)).getLast? = last.getLast? := by
  rw [← List.cons_append, ← List.append_assoc, List.getLast?_append_of_ne_nil _ hne]

/-- In front of a spelling behind an opening bracket stands this bracket or a bar. -/
theorem getLast?_in_front (front : List Char) (ts : List TypeTerm) :
    (front ++ '<' :: barred ts).getLast? = some '<' ∨
      (front ++ '<' :: barred ts).getLast? = some '|' := by
  rcases List.eq_nil_or_concat ts with rfl | ⟨us, u, rfl⟩
  · exact Or.inl (by simp)
  · right
    rw [List.concat_eq_append, barred_append, barred_cons, barred_nil, List.append_cons u.toChars,
      ← List.append_assoc, List.append_nil, getLast?_behind_open (by simp)]
    exact List.getLast?_concat

/-- A plain name behind an opening bracket or a bar does not end with the suffix of arrays. -/
theorem IsMade.suffix_ne {name : String} (h : (basic name).IsMade) (front : List Char)
    (ts : List TypeTerm) (element : List Char) :
    front ++ '<' :: (barred ts ++ name.toList) ≠ element ++ "[]".toList := by
  intro heq
  cases h.isRead with
  | basic hne _ _ =>
    cases h.isNamed with
    | basic _ hsuffix =>
      rw [Option.eq_none_iff_forall_ne_some] at hsuffix
      rw [← List.cons_append, ← List.append_assoc] at heq
      rcases List.append_eq_append_iff.1 heq with ⟨part, -, hname⟩ | ⟨part, hfront, hend⟩
      · exact hsuffix part (Text.stripSuffix?_eq_some.2 hname)
      · match part with
        | [] => exact hsuffix [] (Text.stripSuffix?_eq_some.2 hend.symm)
        | [c] =>
          obtain ⟨rfl, -⟩ := List.cons.inj hend
          have hlast := getLast?_in_front front ts
          rw [hfront, List.getLast?_concat] at hlast
          exact absurd hlast (by decide)
        | c :: d :: part =>
          have hnil := (List.cons.inj (List.cons.inj hend).2).2
          exact hne (List.append_eq_nil_iff.1 hnil.symm).2

/-- Without the suffix of arrays at its end a text breaks off where it did. -/
theorem IsOpen.of_append_suffix {cs : List Char} (h : IsOpen cs) {element : List Char}
    (heq : cs = element ++ "[]".toList) : IsOpen element := by
  induction h generalizing element with
  | @start front hfront =>
    have hlast := congrArg List.getLast? heq
    simp at hlast
  | @whole front ts t hfront hts ht howns =>
    cases ht.spelled with
    | name name hterm =>
      subst hterm
      rw [toChars] at heq
      exact absurd heq (ht.suffix_ne front ts element)
    | suffix name hterm =>
      -- the array of a plain name becomes the name
      subst hterm
      have hmem : basic name ∈ (array [basic name]).inner := List.mem_singleton_self _
      rw [toChars_array_of_oneName, ← List.append_assoc, ← List.cons_append,
        ← List.append_assoc] at heq
      rw [← List.append_cancel_right heq]
      cases howns with
      | mk _ hlast => exact .whole hfront hts (ht.of_mem_inner hmem) (hlast _ rfl)
    | bracketed inside _ hchars =>
      have hlast := congrArg List.getLast? heq
      rw [hchars, getLast?_behind_open (by simp), getLast?_behind_open (by simp)] at hlast
      simp at hlast
  | @inside front part ts hfront hts hpart ih =>
    rw [← List.cons_append, ← List.append_assoc] at heq
    obtain ⟨rest, rfl, hin⟩ := append_eq_append_of_mem hpart.open_mem (by decide) heq
    rw [List.append_assoc, List.cons_append]
    exact .inside hfront hts (ih hin)

/-- A spelling in brackets breaks off without its closing bracket, if the last term inside owns the
closing bracket at its end. -/
theorem IsMade.isOpen_of_brackets {t : TypeTerm} (h : t.IsMade) (howns : t.OwnsClosing)
    {front : List Char} (hfront : IsWrapper front) : IsOpen (front ++ '<' :: joined t.inner) := by
  rcases List.eq_nil_or_concat t.inner with hnil | ⟨ts, last, hinner⟩
  · rw [hnil]
    exact .start hfront
  · rw [List.concat_eq_append] at hinner
    obtain ⟨hts, hmade⟩ := h.areFront hinner
    cases howns with
    | mk _ hlast =>
      rw [hinner, List.getLast?_concat] at hlast
      rw [hinner, joined_concat]
      exact .whole hfront hts hmade (hlast last rfl)

/-- A closing bracket at the end of a text that breaks off is that of a term inside, which breaks
off without it. -/
theorem IsOpen.of_append_close {cs : List Char} (h : IsOpen cs) {before : List Char}
    (heq : cs = before ++ ['>']) :
    ∃ front ts part, IsWrapper front ∧ AreFront ts ∧ IsOpen part ∧
      before = front ++ '<' :: (barred ts ++ part) := by
  induction h generalizing before with
  | @start front hfront =>
    have hlast := congrArg List.getLast? heq
    simp at hlast
  | @whole front ts t hfront hts ht howns =>
    have hend := congrArg List.getLast? heq
    rw [getLast?_behind_open ht.isSpelling.ne_nil, List.getLast?_concat] at hend
    cases ht.spelled with
    | name name hterm =>
      subst hterm
      cases howns with
      | mk hname _ => exact absurd hend (hname name rfl)
    | suffix name hterm =>
      subst hterm
      rw [toChars_array_of_oneName] at hend
      simp at hend
    | bracketed inside hinside hchars =>
      refine ⟨front, ts, _, hfront, hts, ht.isOpen_of_brackets howns hinside, ?_⟩
      rw [hchars] at heq
      have hclosed : before ++ ['>']
          = (front ++ '<' :: (barred ts ++ (inside ++ '<' :: joined t.inner))) ++ ['>'] := by
        rw [← heq]
        simp
      exact List.append_cancel_right hclosed
  | @inside front part ts hfront hts hpart ih =>
    rw [← List.cons_append, ← List.append_assoc] at heq
    obtain ⟨rest, rfl, hin⟩ := append_eq_append_of_mem hpart.open_mem (by decide) heq
    obtain ⟨front', ts', part', hfront', hts', hpart', rfl⟩ := ih hin
    refine ⟨front, ts, _, hfront, hts, .inside hfront' hts' hpart', ?_⟩
    rw [List.append_assoc, List.cons_append]

/-! ## Closing brackets that are added -/

/-- The first piece of a text that breaks off is an alternative that does. -/
theorem IsOpen.exists_alternative {cs : List Char} (h : IsOpen cs) :
    ∃ p ∈ alternatives cs, IsOpen p ∧ p.length ≤ cs.length := by
  obtain ⟨p, ps, hcut⟩ := List.exists_cons_of_ne_nil (cutAtBars_ne_nil 0 cs)
  have hmem : p ∈ cutAtBars 0 cs := hcut ▸ List.mem_cons_self
  have hjoin := intercalate_cutAtBars 0 cs
  have hopen : IsOpen p := by
    rw [hcut] at hjoin
    cases ps with
    | nil =>
      rw [List.intercalate_singleton] at hjoin
      rwa [hjoin]
    | cons q ps =>
      rw [List.intercalate_cons_cons, List.append_assoc, List.singleton_append] at hjoin
      exact h.of_append_bar hjoin.symm
  refine ⟨p, mem_alternatives.2 ⟨List.ne_nil_of_mem hopen.open_mem, p, hmem, hopen.trimmed.trim_eq⟩,
    hopen, length_of_mem_cutAtBars hmem⟩

/-- A closing bracket is added to a text that breaks off. -/
theorem excess_lt_of_isOpen {cs : List Char} (h : IsOpen cs) :
    excess (respelled cs) < excess cs := by
  induction hlen : cs.length using Nat.strongRecOn generalizing cs with
  | ind n ih =>
    have htrim := h.trimmed.trim_eq
    cases hinside : (outermost (Text.trim cs)).inner? with
    | none =>
      obtain ⟨-, hopen, -⟩ := outermost_of_inner?_none hinside
      rw [htrim] at hopen
      exact absurd h.open_mem hopen
    | some inside =>
      refine excess_lt_of_inside hinside ?_
      cases shape hinside with
      | suffix heq _ _ =>
        rw [htrim] at heq
        obtain ⟨p, hp, hopen, hle⟩ := (h.of_append_suffix heq).exists_alternative
        have hlt : inside.length < cs.length := by
          rw [heq, List.length_append]
          exact Nat.lt_add_of_pos_right (by decide)
        exact Or.inr ⟨p, hp, ih p.length (by omega) hopen rfl⟩
      | closed front rest blanks heq hfront hblanks hinner _ _ =>
        -- the closing bracket is that of a term inside
        rw [htrim] at heq
        have htrimmed := h.trimmed
        have hsplit : front ++ '<' :: (rest ++ '>' :: blanks)
            = (front ++ '<' :: rest) ++ ['>'] ++ blanks := by simp
        rw [heq, hsplit] at htrimmed
        obtain rfl := htrimmed.eq_nil_of_blank hblanks
        rw [List.append_nil] at hsplit
        obtain ⟨front', ts, part, hfront', hts, hpart, hbefore⟩ :=
          h.of_append_close (heq.trans hsplit)
        obtain ⟨-, rfl⟩ := append_open_inj hfront hfront'.no_open hbefore
        obtain ⟨p, hp, hopen, hle⟩ := hpart.exists_alternative
        have hmem : p ∈ alternatives inside := by
          rw [hinner, alternatives_trim, alternatives_barred_append fun t ht => (hts t ht).1]
          exact List.mem_append_right _ hp
        have hlt : part.length < cs.length := by
          rw [heq]
          simp only [List.length_append, List.length_cons]
          omega
        exact Or.inr ⟨p, hmem, ih p.length (by omega) hopen rfl⟩
      | unclosed _ _ _ _ _ _ hclosing => exact Or.inl hclosing

/-! ## Spellings that are kept together -/

theorem isFirm_of_inner {t : TypeTerm} (hfirm : ∀ u ∈ t.inner, u.IsFirm)
    (hbalanced : t.inner.Pairwise fun u _ => isBalanced u.toChars = true) : t.IsFirm := by
  cases t with
  | basic name => exact .basic name
  | wrapped wrapper ts => exact .wrapped hfirm hbalanced
  | array ts => exact .array hfirm hbalanced

/-- No bar cuts the spelling of a made term if reading its alternatives adds no closing bracket. -/
theorem IsMade.uncut_of_kept {t : TypeTerm} (h : t.IsMade)
    (hkept : ∀ p ∈ alternatives t.toChars, ¬ excess (respelled p) < excess p) :
    cutAtBars 0 t.toChars = [t.toChars] := by
  obtain ⟨p, ps, hcut⟩ := List.exists_cons_of_ne_nil (cutAtBars_ne_nil 0 t.toChars)
  have hjoin := intercalate_cutAtBars 0 t.toChars
  rw [hcut] at hjoin ⊢
  cases ps with
  | nil => rw [← hjoin, List.intercalate_singleton]
  | cons q ps =>
    -- the first piece would break off
    rw [List.intercalate_cons_cons, List.append_assoc, List.singleton_append] at hjoin
    have hopen : IsOpen p := h.isOpen_of_append_bar hjoin.symm
    have hpiece : p ∈ cutAtBars 0 t.toChars := hcut ▸ List.mem_cons_self
    have hmem : p ∈ alternatives t.toChars :=
      mem_alternatives.2 ⟨List.ne_nil_of_mem hopen.open_mem, p, hpiece, hopen.trimmed.trim_eq⟩
    exact absurd (excess_lt_of_isOpen hopen) (hkept p hmem)

/-- A made term is firm if reading the alternatives of its spelling adds no closing bracket. -/
theorem IsMade.isFirm_of_kept {t : TypeTerm} (h : t.IsMade)
    (hkept : ∀ p ∈ alternatives t.toChars, ¬ excess (respelled p) < excess p) : t.IsFirm := by
  induction t using inner_induction with
  | step t ih =>
    cases h.spelled with
    | name name hterm =>
      subst hterm
      exact .basic name
    | suffix name hterm =>
      subst hterm
      exact .array (List.forall_mem_singleton.2 (.basic name)) (List.pairwise_singleton _ _)
    | bracketed front hfront hchars =>
      have htrim := isTrimmed_joined_of_read fun u hu => (h.of_mem_inner hu).isRead
      have hinside : (outermost (Text.trim t.toChars)).inner? = some (joined t.inner) := by
        rw [h.isSpelling.trimmed.trim_eq, hchars, outermost_bracketed hfront.no_open htrim,
          inner?_bracketed]
      have huncut := h.uncut_of_kept hkept
      rw [h.isSpelling.alternatives_eq huncut, List.forall_mem_singleton] at hkept
      -- nothing is added to the alternatives inside either
      have halternatives := alternatives_joined_of_made fun u hu => h.of_mem_inner hu
      have hparts : ∀ u ∈ t.inner, ∀ p ∈ alternatives u.toChars,
          ¬ excess (respelled p) < excess p := by
        intro u hu p hp hlt
        refine hkept (excess_lt_of_inside hinside (Or.inr ⟨p, ?_, hlt⟩))
        rw [halternatives]
        exact List.mem_flatMap.2 ⟨u, hu, hp⟩
      have hspelled : alternatives (joined t.inner) = t.inner.map toChars := by
        rw [halternatives, List.map_eq_flatMap]
        refine List.flatMap_congr fun u hu => ?_
        have hmade := h.of_mem_inner hu
        exact hmade.isSpelling.alternatives_eq (hmade.uncut_of_kept (hparts u hu))
      refine isFirm_of_inner (fun u hu => ih u hu (h.of_mem_inner hu) (hparts u hu)) ?_
      rw [hchars] at huncut
      have hjoined := uncut_of_append (uncut_behind_open hfront.no_open huncut)
      have hbalanced := pairwise_balanced_alternatives hjoined
      rw [hspelled] at hbalanced
      exact List.pairwise_map.1 hbalanced

end TypeTerm

end ApiTypings
