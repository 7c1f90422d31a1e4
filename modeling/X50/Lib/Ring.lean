/-
# `X50.Lib.Ring` — circular doubly linked lists in memory

A link is embedded in the structure it links and knows its two neighbours; a
list is a ring of links through a head that is embedded in nothing:

    insert new prev next m    between two neighbours
    listAdd new head m        behind the head
    listDel entry m           out of its ring, the entry poisoned

`m` says which links there are.  A write to one that is not there is undefined
(`none`), so that a defined result is also a promise that no other memory was
touched.

`Ring m head xs` reads the memory: from the head along `next` the links are those
of `xs`, along `prev` the same backwards, and no link comes twice.  Each operation
is described once by what it does to that list.
-/
import Mathlib.Data.List.Basic
import Mathlib.Data.List.Nodup
import Mathlib.Logic.Function.Basic

namespace X50.Lib

/-- A link. -/
structure Link (A : Type*) where
  next : A
  prev : A
deriving DecidableEq, Repr

/-- The links in memory. -/
abbrev Links (A : Type*) := A → Option (Link A)

section Operations

variable {A : Type*} [DecidableEq A]

/-- `a->next = b` -/
def setNext (a b : A) (m : Links A) : Option (Links A) :=
  (m a).map fun l => Function.update m a (some { l with next := b })

/-- `a->prev = b` -/
def setPrev (a b : A) (m : Links A) : Option (Links A) :=
  (m a).map fun l => Function.update m a (some { l with prev := b })

/-- A new link between two neighbours. -/
def insertLink (new prev next : A) (m : Links A) : Option (Links A) := do
  let m ← setPrev next new m
  let m ← setNext new next m
  let m ← setPrev new prev m
  setNext prev new m

/-- A new link behind the head. -/
def listAdd (new head : A) (m : Links A) : Option (Links A) := do
  let l ← m head
  insertLink new head l.next m

/-- Two links become neighbours. -/
def joinLinks (prev next : A) (m : Links A) : Option (Links A) := do
  let m ← setPrev next prev m
  setNext prev next m

/-- A link is taken out, and its own two pointers are spoilt. -/
def listDel (poison₁ poison₂ entry : A) (m : Links A) : Option (Links A) := do
  let l ← m entry
  let m ← joinLinks l.prev l.next m
  let m ← setNext entry poison₁ m
  setPrev entry poison₂ m

end Operations

/-! ## What a memory says -/

section Reading

variable {A : Type*}

def nextAt (m : Links A) (a : A) : Option A := (m a).map Link.next

def prevAt (m : Links A) (a : A) : Option A := (m a).map Link.prev

/-- The link is there. -/
def Mapped (m : Links A) (a : A) : Prop := (m a).isSome

theorem mapped_of_nextAt {m : Links A} {a b : A} (h : nextAt m a = some b) : Mapped m a := by
  obtain ⟨l, hl, -⟩ := Option.map_eq_some_iff.mp h
  rw [Mapped, hl]
  rfl

/-- What reading a link gives. -/
theorem link_eq {m : Links A} {a b c : A} (hnext : nextAt m a = some b)
    (hprev : prevAt m a = some c) : m a = some ⟨b, c⟩ := by
  obtain ⟨l, hl, rfl⟩ := Option.map_eq_some_iff.mp hnext
  rw [prevAt, hl] at hprev
  obtain rfl := Option.some.inj hprev
  exact hl

/-- Each of the two points at the other. -/
def Neighbours (m : Links A) (a b : A) : Prop := nextAt m a = some b ∧ prevAt m b = some a

/-- From `a` to `b` by way of `xs`. -/
def Linked (m : Links A) : A → List A → A → Prop
  | a, [], b => Neighbours m a b
  | a, x :: xs, b => Neighbours m a x ∧ Linked m x xs b

variable {m m' : Links A} {a b y : A} {xs ys : List A}

theorem linked_append : Linked m a (xs ++ y :: ys) b ↔ Linked m a xs y ∧ Linked m y ys b := by
  induction xs generalizing a with
  | nil => exact Iff.rfl
  | cons x xs ih => simp only [List.cons_append, Linked, ih, and_assoc]

theorem Linked.next (h : Linked m a xs b) : nextAt m a = some (xs.headD b) := by
  cases xs with
  | nil => exact h.1
  | cons x xs => exact h.1.1

theorem Linked.prev (h : Linked m a xs b) : prevAt m b = some (xs.getLastD a) := by
  induction xs generalizing a with
  | nil => exact h.2
  | cons x xs ih =>
      rw [List.getLastD_cons]
      exact ih h.2

theorem Linked.mapped (h : Linked m a xs b) : ∀ x ∈ a :: xs, Mapped m x := by
  induction xs generalizing a with
  | nil =>
      intro x hx
      rw [List.mem_singleton.mp hx]
      exact mapped_of_nextAt h.1
  | cons c xs ih =>
      intro x hx
      rcases List.mem_cons.mp hx with rfl | hx
      · exact mapped_of_nextAt h.1.1
      · exact ih h.2 x hx

/-- A way depends on the pointers along it only. -/
theorem Linked.congr (h : Linked m a xs b) (hnext : ∀ x ∈ a :: xs, nextAt m' x = nextAt m x)
    (hprev : ∀ x ∈ xs ++ [b], prevAt m' x = prevAt m x) : Linked m' a xs b := by
  induction xs generalizing a with
  | nil =>
      refine ⟨?_, ?_⟩
      · rw [hnext a List.mem_cons_self]
        exact h.1
      · rw [hprev b List.mem_cons_self]
        exact h.2
  | cons x xs ih =>
      refine ⟨⟨?_, ?_⟩, ih h.2 ?_ ?_⟩
      · rw [hnext a List.mem_cons_self]
        exact h.1.1
      · rw [hprev x List.mem_cons_self]
        exact h.1.2
      · intro y hy
        exact hnext y (List.mem_cons_of_mem _ hy)
      · intro y hy
        exact hprev y (List.mem_cons_of_mem _ hy)

end Reading

/-! ## What a write does -/

section Writing

variable {A : Type*} [DecidableEq A] {m : Links A}

theorem setNext_spec {a : A} (h : Mapped m a) (b : A) :
    ∃ m', setNext a b m = some m' ∧ nextAt m' = Function.update (nextAt m) a (some b) ∧
      prevAt m' = prevAt m ∧ ∀ x, Mapped m' x ↔ Mapped m x := by
  obtain ⟨l, hl⟩ := Option.isSome_iff_exists.mp h
  refine ⟨_, by rw [setNext, hl, Option.map_some], ?_, ?_, ?_⟩
  · funext x
    by_cases hx : x = a
    · subst hx
      simp [nextAt]
    · simp [nextAt, hx]
  · funext x
    by_cases hx : x = a
    · subst hx
      simp [prevAt, hl]
    · simp [prevAt, hx]
  · intro x
    by_cases hx : x = a
    · subst hx
      simp [Mapped, hl]
    · simp [Mapped, hx]

theorem setPrev_spec {a : A} (h : Mapped m a) (b : A) :
    ∃ m', setPrev a b m = some m' ∧ nextAt m' = nextAt m ∧
      prevAt m' = Function.update (prevAt m) a (some b) ∧ ∀ x, Mapped m' x ↔ Mapped m x := by
  obtain ⟨l, hl⟩ := Option.isSome_iff_exists.mp h
  refine ⟨_, by rw [setPrev, hl, Option.map_some], ?_, ?_, ?_⟩
  · funext x
    by_cases hx : x = a
    · subst hx
      simp [nextAt, hl]
    · simp [nextAt, hx]
  · funext x
    by_cases hx : x = a
    · subst hx
      simp [prevAt]
    · simp [prevAt, hx]
  · intro x
    by_cases hx : x = a
    · subst hx
      simp [Mapped, hl]
    · simp [Mapped, hx]

theorem insertLink_spec {new prev next : A} (hnew : Mapped m new) (hprev : Mapped m prev)
    (hnext : Mapped m next) :
    ∃ m', insertLink new prev next m = some m' ∧
      nextAt m' = Function.update (Function.update (nextAt m) new (some next)) prev (some new) ∧
      prevAt m' = Function.update (Function.update (prevAt m) next (some new)) new (some prev) ∧
      ∀ x, Mapped m' x ↔ Mapped m x := by
  obtain ⟨m₁, h₁, hn₁, hp₁, hm₁⟩ := setPrev_spec hnext new
  obtain ⟨m₂, h₂, hn₂, hp₂, hm₂⟩ := setNext_spec ((hm₁ new).mpr hnew) next
  obtain ⟨m₃, h₃, hn₃, hp₃, hm₃⟩ := setPrev_spec ((hm₂ new).mpr ((hm₁ new).mpr hnew)) prev
  obtain ⟨m₄, h₄, hn₄, hp₄, hm₄⟩ :=
    setNext_spec ((hm₃ prev).mpr ((hm₂ prev).mpr ((hm₁ prev).mpr hprev))) new
  refine ⟨m₄, ?_, ?_, ?_, ?_⟩
  · simp only [insertLink, h₁, h₂, h₃, h₄, Option.bind_eq_bind, Option.bind_some]
  · rw [hn₄, hn₃, hn₂, hn₁]
  · rw [hp₄, hp₃, hp₂, hp₁]
  · intro x
    rw [hm₄, hm₃, hm₂, hm₁]

theorem joinLinks_spec {prev next : A} (hprev : Mapped m prev) (hnext : Mapped m next) :
    ∃ m', joinLinks prev next m = some m' ∧
      nextAt m' = Function.update (nextAt m) prev (some next) ∧
      prevAt m' = Function.update (prevAt m) next (some prev) ∧
      ∀ x, Mapped m' x ↔ Mapped m x := by
  obtain ⟨m₁, h₁, hn₁, hp₁, hm₁⟩ := setPrev_spec hnext prev
  obtain ⟨m₂, h₂, hn₂, hp₂, hm₂⟩ := setNext_spec ((hm₁ prev).mpr hprev) next
  refine ⟨m₂, ?_, ?_, ?_, ?_⟩
  · simp only [joinLinks, h₁, h₂, Option.bind_eq_bind, Option.bind_some]
  · rw [hn₂, hn₁]
  · rw [hp₂, hp₁]
  · intro x
    rw [hm₂, hm₁]

/-- The neighbours of a link that goes become neighbours. -/
theorem Linked.join {m' : Links A} {a e b : A} {xs ys : List A} (hx : Linked m a xs e)
    (hy : Linked m e ys b) (hnodup : (a :: (xs ++ ys)).Nodup) (hb : b ∉ xs ++ ys)
    (hnext : nextAt m' = Function.update (nextAt m) (xs.getLastD a) (some (ys.headD b)))
    (hprev : prevAt m' = Function.update (prevAt m) (ys.headD b) (some (xs.getLastD a))) :
    Linked m' a (xs ++ ys) b := by
  induction xs generalizing a with
  | nil =>
      rw [List.getLastD_nil] at hnext hprev
      cases ys with
      | nil =>
          rw [List.headD_nil] at hnext hprev
          refine ⟨?_, ?_⟩
          · rw [hnext, Function.update_self]
          · rw [hprev, Function.update_self]
      | cons y ys =>
          rw [List.headD_cons] at hnext hprev
          rw [List.nil_append] at hnodup hb
          have ha : a ∉ y :: ys := (List.nodup_cons.mp hnodup).1
          have hyys : y ∉ ys := (List.nodup_cons.mp (List.nodup_cons.mp hnodup).2).1
          have hyb : y ≠ b := fun h => hb (h ▸ List.mem_cons_self)
          refine ⟨⟨?_, ?_⟩, hy.2.congr ?_ ?_⟩
          · rw [hnext, Function.update_self]
          · rw [hprev, Function.update_self]
          · intro x hxy
            rw [hnext, Function.update_of_ne]
            exact fun h => ha (h ▸ hxy)
          · intro x hxy
            rw [hprev, Function.update_of_ne]
            intro h
            subst h
            rcases List.mem_append.mp hxy with hxy | hxy
            · exact hyys hxy
            · exact hyb (List.mem_singleton.mp hxy)
  | cons x xs ih =>
      rw [List.getLastD_cons] at hnext hprev
      rw [List.cons_append] at hnodup hb
      obtain ⟨ha, hnodup'⟩ := List.nodup_cons.mp hnodup
      have hx' : x ∉ xs ++ ys := (List.nodup_cons.mp hnodup').1
      have hxb : x ≠ b := fun h => hb (h ▸ List.mem_cons_self)
      refine ⟨⟨?_, ?_⟩, ih hx.2 hnodup' (fun h => hb (List.mem_cons_of_mem _ h)) hnext hprev⟩
      · rw [hnext, Function.update_of_ne]
        · exact hx.1.1
        · intro h
          have hmem : xs.getLastD x ∈ x :: xs := List.getLastD_mem_cons
          rw [← h] at hmem
          exact ha (List.mem_append_left ys hmem)
      · rw [hprev, Function.update_of_ne]
        · exact hx.1.2
        · intro h
          cases ys with
          | nil => exact hxb h
          | cons y ys => exact hx' (h ▸ List.mem_append_right _ List.mem_cons_self)

end Writing

/-! ## Rings -/

/-- `xs` are the links behind the head. -/
structure Ring {A : Type*} (m : Links A) (head : A) (xs : List A) : Prop where
  linked : Linked m head xs head
  nodup : (head :: xs).Nodup

namespace Ring

variable {A : Type*} {m m' : Links A} {head e : A} {xs ys : List A}

theorem mapped (h : Ring m head xs) : ∀ x ∈ head :: xs, Mapped m x := h.linked.mapped

/-- Where a walk starts. -/
theorem next_head (h : Ring m head xs) : nextAt m head = some (xs.headD head) := h.linked.next

/-- Where a walk goes on. -/
theorem next (h : Ring m head (xs ++ e :: ys)) : nextAt m e = some (ys.headD head) :=
  (linked_append.mp h.linked).2.next

theorem prev (h : Ring m head (xs ++ e :: ys)) : prevAt m e = some (xs.getLastD head) :=
  (linked_append.mp h.linked).1.prev

theorem ne_head (h : Ring m head xs) (he : e ∈ xs) : e ≠ head := by
  rintro rfl
  exact (List.nodup_cons.mp h.nodup).1 he

theorem congr (h : Ring m head xs) (hsame : ∀ x ∈ head :: xs, m' x = m x) : Ring m' head xs := by
  refine ⟨h.linked.congr ?_ ?_, h.nodup⟩
  · intro x hx
    rw [nextAt, nextAt, hsame x hx]
  · intro x hx
    rw [prevAt, prevAt, hsame x (by simpa [or_comm] using hx)]

variable [DecidableEq A]

/-- A head that points at itself. -/
theorem init (m : Links A) (head : A) :
    Ring (Function.update m head (some ⟨head, head⟩)) head [] := by
  refine ⟨⟨?_, ?_⟩, List.nodup_singleton head⟩
  · simp [nextAt]
  · simp [prevAt]

/-- **`listAdd` puts a link in front.** -/
theorem listAdd {new : A} (h : Ring m head xs) (hmapped : Mapped m new) (hnew : new ∉ head :: xs) :
    ∃ m', listAdd new head m = some m' ∧ Ring m' head (new :: xs) ∧
      ∀ x, Mapped m' x ↔ Mapped m x := by
  have hnext : Mapped m (xs.headD head) := by
    cases xs with
    | nil => exact h.mapped head List.mem_cons_self
    | cons x xs => exact h.mapped x (List.mem_cons_of_mem _ List.mem_cons_self)
  obtain ⟨m', hm', hn, hp, hmap⟩ :=
    insertLink_spec hmapped (h.mapped head List.mem_cons_self) hnext
  have hhead : new ≠ head := fun heq => hnew (heq ▸ List.mem_cons_self)
  have hxs : new ∉ xs := fun hmem => hnew (List.mem_cons_of_mem _ hmem)
  obtain ⟨hheadxs, hnodup⟩ := List.nodup_cons.mp h.nodup
  refine ⟨m', ?_, ⟨⟨⟨?_, ?_⟩, ?_⟩, ?_⟩, hmap⟩
  · obtain ⟨l, hl, hlnext⟩ := Option.map_eq_some_iff.mp h.next_head
    rw [X50.Lib.listAdd, hl, Option.bind_eq_bind, Option.bind_some, hlnext]
    exact hm'
  · rw [hn, Function.update_self]
  · rw [hp, Function.update_self]
  · cases xs with
    | nil =>
        rw [List.headD_nil] at hn hp
        refine ⟨?_, ?_⟩
        · rw [hn, Function.update_of_ne hhead, Function.update_self]
        · rw [hp, Function.update_of_ne (Ne.symm hhead), Function.update_self]
    | cons x xs =>
        rw [List.headD_cons] at hn hp
        have hxnew : x ≠ new := fun heq => hxs (heq ▸ List.mem_cons_self)
        have hxhead : x ≠ head := h.ne_head List.mem_cons_self
        refine ⟨⟨?_, ?_⟩, h.linked.2.congr ?_ ?_⟩
        · rw [hn, Function.update_of_ne hhead, Function.update_self]
        · rw [hp, Function.update_of_ne hxnew, Function.update_self]
        · intro y hy
          rw [hn, Function.update_of_ne, Function.update_of_ne]
          · exact fun heq => hxs (heq ▸ hy)
          · exact fun heq => hheadxs (heq ▸ hy)
        · intro y hy
          have hyx : y ≠ x := by
            rintro rfl
            rcases List.mem_append.mp hy with hy | hy
            · exact (List.nodup_cons.mp hnodup).1 hy
            · exact hxhead (List.mem_singleton.mp hy)
          have hynew : y ≠ new := by
            rintro rfl
            rcases List.mem_append.mp hy with hy | hy
            · exact hxs (List.mem_cons_of_mem _ hy)
            · exact hhead (List.mem_singleton.mp hy)
          rw [hp, Function.update_of_ne hynew, Function.update_of_ne hyx]
  · refine List.nodup_cons.mpr ⟨?_, List.nodup_cons.mpr ⟨hxs, hnodup⟩⟩
    intro hmem
    rcases List.mem_cons.mp hmem with heq | hmem
    · exact hhead heq.symm
    · exact hheadxs hmem

/-- **`listDel` takes its link out**, wherever in the ring it is. -/
theorem listDel (poison₁ poison₂ : A) (h : Ring m head (xs ++ e :: ys)) :
    ∃ m', listDel poison₁ poison₂ e m = some m' ∧ Ring m' head (xs ++ ys) ∧
      ∀ x, Mapped m' x ↔ Mapped m x := by
  obtain ⟨hx, hy⟩ := linked_append.mp h.linked
  have hsub : (head :: (xs ++ ys)).Sublist (head :: (xs ++ e :: ys)) :=
    ((List.sublist_cons_self e ys).append_left xs).cons_cons head
  have hnodup : (head :: (xs ++ ys)).Nodup := h.nodup.sublist hsub
  have he : e ∉ head :: (xs ++ ys) := by
    have hperm : (head :: (xs ++ e :: ys)).Perm (e :: head :: (xs ++ ys)) :=
      (List.perm_middle.cons head).trans (List.Perm.swap e head _)
    exact (List.nodup_cons.mp (hperm.nodup_iff.mp h.nodup)).1
  have hprev : Mapped m (xs.getLastD head) :=
    hx.mapped _ (List.getLastD_mem_cons)
  have hnext : Mapped m (ys.headD head) := by
    cases ys with
    | nil => exact h.mapped head List.mem_cons_self
    | cons y ys => exact hy.mapped y (List.mem_cons_of_mem _ List.mem_cons_self)
  have hmapped : Mapped m e := hy.mapped e List.mem_cons_self
  obtain ⟨m₁, h₁, hn₁, hp₁, hm₁⟩ := joinLinks_spec hprev hnext
  obtain ⟨m₂, h₂, hn₂, hp₂, hm₂⟩ := setNext_spec ((hm₁ e).mpr hmapped) poison₁
  obtain ⟨m₃, h₃, hn₃, hp₃, hm₃⟩ := setPrev_spec ((hm₂ e).mpr ((hm₁ e).mpr hmapped)) poison₂
  have hlinked : Linked m₁ head (xs ++ ys) head :=
    hx.join hy hnodup (List.nodup_cons.mp hnodup).1 hn₁ hp₁
  refine ⟨m₃, ?_, ⟨hlinked.congr ?_ ?_, hnodup⟩, ?_⟩
  · rw [X50.Lib.listDel, link_eq h.next h.prev]
    simp only [Option.bind_eq_bind, Option.bind_some, h₁, h₂, h₃]
  · intro x hmem
    rw [hn₃, hn₂, Function.update_of_ne]
    exact fun heq => he (heq ▸ hmem)
  · intro x hmem
    rw [hp₃, hp₂, Function.update_of_ne]
    rintro rfl
    refine he ?_
    rcases List.mem_append.mp hmem with hmem | hmem
    · exact List.mem_cons_of_mem _ hmem
    · exact List.mem_cons.mpr (Or.inl (List.mem_singleton.mp hmem))
  · intro x
    rw [hm₃, hm₂, hm₁]

end Ring

end X50.Lib
