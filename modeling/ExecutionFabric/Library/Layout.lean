import ExecutionFabric.Library.Reading

/-!
Layouts: what the bytes of a format are, without what they mean.

A layout is made of fixed numbers of bytes, texts behind their length, parts
that are there if a flag is set, and parts that are repeated as often as a
count says. `walk` goes through a byte string along a layout and collects the
flags on the way.

A reader that takes every flag but zero for set is the reason for `Normal`:
of the byte strings that it does not tell apart, it relates each to the one that
a writer of zeros and ones would have written. The two have the same length,
and they are the same exactly if no flag is anything else (`Normal.eq_iff`).
-/

open Reading

inductive Layout
  | bytes (n : ℕ)
  | text
  | optional (l : Layout)
  | append (l l' : Layout)
  | counted (l : Layout)

namespace Layout

/-- Walk `n` times. -/
def walkMany (walk : List UInt8 → List UInt8 × List UInt8) :
    ℕ → List UInt8 → List UInt8 × List UInt8
  | 0, bs => ([], bs)
  | n + 1, bs =>
    let (flags, bs) := walk bs
    let (more, bs) := walkMany walk n bs
    (flags ++ more, bs)

/-- The flags, and what is behind the layout. -/
def walk : Layout → List UInt8 → List UInt8 × List UInt8
  | bytes n, bs => ([], bs.drop n)
  | text, bs => ([], bs.drop (4 + leValue (bs.take 4)))
  | optional _, [] => ([], [])
  | optional l, flag :: bs =>
    if flag = 0 then ([flag], bs)
    else
      let (flags, bs) := l.walk bs
      (flag :: flags, bs)
  | append l l', bs =>
    let (flags, bs) := l.walk bs
    let (more, bs) := l'.walk bs
    (flags ++ more, bs)
  | counted l, bs => walkMany l.walk (leValue (bs.take 4)) (bs.drop 4)

/-- The flags in a byte string. -/
def flags (l : Layout) (bs : List UInt8) : List UInt8 := (l.walk bs).1

/-- A flag as a writer writes it. -/
def Clean (flag : UInt8) : Prop := flag = 0 ∨ flag = 1

/-- Along the layout `walk`, the writer would have written `ys` for `xs`. -/
structure NormalAlong (walk : List UInt8 → List UInt8 × List UInt8) (xs ys : List UInt8) :
    Prop where
  length : xs.length = ys.length
  walks : ∃ flags, (∀ tail, walk (xs ++ tail) = (flags, tail)) ∧
    (xs = ys ↔ ∀ flag ∈ flags, Clean flag)

abbrev Normal (l : Layout) : List UInt8 → List UInt8 → Prop := NormalAlong l.walk

theorem NormalAlong.nil {walk : List UInt8 → List UInt8 × List UInt8}
    (h : ∀ tail, walk tail = ([], tail)) : NormalAlong walk [] [] where
  length := rfl
  walks := ⟨[], h, iff_of_true rfl nofun⟩

/-- One part behind the other. -/
theorem NormalAlong.append {walk walk₁ walk₂ : List UInt8 → List UInt8 × List UInt8}
    {xs ys xs' ys' : List UInt8} (h₁ : NormalAlong walk₁ xs ys) (h₂ : NormalAlong walk₂ xs' ys')
    (hwalk : ∀ bs, walk bs = ((walk₁ bs).1 ++ (walk₂ (walk₁ bs).2).1, (walk₂ (walk₁ bs).2).2)) :
    NormalAlong walk (xs ++ xs') (ys ++ ys') := by
  obtain ⟨flags₁, hwalk₁, heq₁⟩ := h₁.walks
  obtain ⟨flags₂, hwalk₂, heq₂⟩ := h₂.walks
  refine ⟨by rw [List.length_append, List.length_append, h₁.length, h₂.length],
    flags₁ ++ flags₂, fun tail => ?_, ?_⟩
  · rw [hwalk, List.append_assoc, hwalk₁, hwalk₂]
  · rw [List.forall_mem_append, ← heq₁, ← heq₂]
    exact ⟨fun h => List.append_inj h h₁.length, fun h => by rw [h.1, h.2]⟩

namespace Normal

variable {l l' : Layout} {xs ys xs' ys' : List UInt8}

theorem bytes {n : ℕ} (h : xs.length = n) : Normal (.bytes n) xs xs where
  length := rfl
  walks := ⟨[], fun tail => by rw [walk, List.drop_left' h], iff_of_true rfl nofun⟩

theorem text {n : ℕ} (hn : n < 2 ^ 32) (h : xs.length = n) :
    Normal .text (leBytes 4 n ++ xs) (leBytes 4 n ++ xs) where
  length := rfl
  walks := by
    refine ⟨[], fun tail => ?_, iff_of_true rfl nofun⟩
    have hcount : ((leBytes 4 n ++ xs) ++ tail).take 4 = leBytes 4 n := by
      rw [List.append_assoc]
      exact List.take_left' (length_leBytes 4 n)
    have hend : (leBytes 4 n ++ xs).length = 4 + n := by
      rw [List.length_append, length_leBytes, h]
    rw [walk, hcount, leValue_leBytes hn, List.drop_left' hend]

theorem absent (l : Layout) : Normal (.optional l) [0] [0] where
  length := rfl
  walks := ⟨[0], fun _ => rfl, iff_of_true rfl (by simp [Clean])⟩

theorem present {flag : UInt8} (hflag : flag ≠ 0) (h : Normal l xs ys) :
    Normal (.optional l) (flag :: xs) (1 :: ys) := by
  obtain ⟨flags, hwalk, heq⟩ := h.walks
  refine ⟨congrArg (· + 1) h.length, flag :: flags, fun tail => ?_, ?_⟩
  · show (if flag = 0 then _ else _) = _
    rw [if_neg hflag]
    show (flag :: (l.walk (xs ++ tail)).1, (l.walk (xs ++ tail)).2) = _
    rw [hwalk]
  · rw [List.cons.injEq, List.forall_mem_cons, ← heq, Clean, or_iff_right hflag]

theorem append (h : Normal l xs ys) (h' : Normal l' xs' ys') :
    Normal (.append l l') (xs ++ xs') (ys ++ ys') :=
  NormalAlong.append h h' fun _ => rfl

theorem many {α : Type} {W : List UInt8 → α → Prop} {write : α → List UInt8} {as : List α}
    (h : ∀ bs a, W bs a → Normal l bs (write a)) (hxs : Pieces W xs as) :
    NormalAlong (walkMany l.walk as.length) xs (as.flatMap write) := by
  induction hxs with
  | nil => exact .nil fun _ => rfl
  | cons head tail ih => exact NormalAlong.append (h _ _ head) ih fun _ => rfl

/-- As many parts as the count says. -/
theorem counted {α : Type} {W : List UInt8 → α → Prop} {write : α → List UInt8} {as : List α}
    (hcount : as.length < 2 ^ 32) (h : ∀ bs a, W bs a → Normal l bs (write a))
    (hxs : Pieces W xs as) :
    Normal (.counted l) (leBytes 4 as.length ++ xs) (leBytes 4 as.length ++ as.flatMap write) := by
  have hmany := many h hxs
  obtain ⟨flags, hwalk, heq⟩ := hmany.walks
  refine ⟨by rw [List.length_append, List.length_append, hmany.length], flags, fun tail => ?_, ?_⟩
  · rw [walk, List.append_assoc, List.take_left' (length_leBytes 4 _), leValue_leBytes hcount,
      List.drop_left' (length_leBytes 4 _), hwalk]
  · rw [List.append_cancel_left_eq, heq]

/-- The writer would have written the same exactly if every flag is clean. -/
theorem eq_iff (h : Normal l xs ys) : xs = ys ↔ ∀ flag ∈ l.flags xs, Clean flag := by
  obtain ⟨flags, hwalk, heq⟩ := h.walks
  have hflags := hwalk []
  rw [List.append_nil] at hflags
  rw [heq, Layout.flags, hflags]

end Normal

end Layout
