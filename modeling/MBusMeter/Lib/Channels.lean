import Mathlib.Data.List.Nodup
import Mathlib.Data.List.Perm.Basic

/-!
# Messages on channels

Messages go out one after the other, each on a channel, and what a channel
shows is the last message on it. Two lists of messages that differ in their
order alone show the same, as long as no channel gets more than one message;
where a channel gets more, it is their order on that channel that counts and
nothing else. The messages may come in groups, one group for each item of a
list, with all messages of a group on the channel the item is about.
-/

namespace MBusMeter.Lib

universe u v w

variable {α : Type u} {β : Type v} {κ : Type w} [DecidableEq κ]

def lastOn (channel : α → κ) (k : κ) (messages : List α) : Option α :=
  (messages.filter fun m => channel m = k).getLast?

def itemsOn (about : β → Option κ) (k : κ) (items : List β) : List β :=
  items.filter fun x => about x = some k

theorem lastOn_snoc (channel : α → κ) (k : κ) (messages : List α) (m : α) :
    lastOn channel k (messages ++ [m]) =
      if channel m = k then some m else lastOn channel k messages := by
  by_cases h : channel m = k <;> simp [lastOn, h]

/-- What came before the last message of a kind is of no account. -/
theorem lastOn_append_of_some {channel : α → κ} {k : κ} {later : List α}
    {m : α} (h : lastOn channel k later = some m) (earlier : List α) :
    lastOn channel k (earlier ++ later) = some m := by
  rw [lastOn] at h
  rw [lastOn, List.filter_append, List.getLast?_append, h]
  rfl

theorem lastOn_eq_none {channel : α → κ} {k : κ} {messages : List α} :
    lastOn channel k messages = none ↔ ∀ m ∈ messages, channel m ≠ k := by
  rw [lastOn, List.getLast?_eq_none_iff, List.filter_eq_nil_iff]
  simp

theorem channel_of_lastOn {channel : α → κ} {k : κ} {messages : List α} {m : α}
    (h : lastOn channel k messages = some m) : channel m = k := by
  have hmem := List.mem_of_getLast? h
  exact of_decide_eq_true (List.mem_filter.mp hmem).2

/-- Every message goes out on the channel its item is about. -/
def OnChannel (channel : α → κ) (about : β → Option κ) (f : β → List α) :
    Prop :=
  ∀ x, ∀ m ∈ f x, about x = some (channel m)

variable {channel : α → κ} {about : β → Option κ} {f : β → List α}

theorem OnChannel.filter_of_eq (h : OnChannel channel about f) {x : β} {k : κ}
    (hx : about x = some k) : (f x).filter (fun m => channel m = k) = f x := by
  refine List.filter_eq_self.mpr fun m hm => ?_
  have heq := h x m hm
  rw [hx, Option.some.injEq] at heq
  simp [heq]

theorem OnChannel.filter_of_ne (h : OnChannel channel about f) {x : β} {k : κ}
    (hx : about x ≠ some k) : (f x).filter (fun m => channel m = k) = [] := by
  refine List.filter_eq_nil_iff.mpr fun m hm => ?_
  have heq := h x m hm
  simp only [decide_eq_true_eq]
  rintro rfl
  exact hx heq

theorem OnChannel.filter_flatMap (h : OnChannel channel about f) (k : κ)
    (items : List β) :
    (items.flatMap f).filter (fun m => channel m = k) =
      (itemsOn about k items).flatMap f := by
  induction items with
  | nil => rfl
  | cons x items ih =>
      rw [List.flatMap_cons, List.filter_append, ih]
      by_cases hx : about x = some k
      · simp [itemsOn, hx, h.filter_of_eq hx]
      · simp [itemsOn, hx, h.filter_of_ne hx]

theorem OnChannel.lastOn_flatMap (h : OnChannel channel about f) (k : κ)
    (items : List β) :
    lastOn channel k (items.flatMap f) =
      ((itemsOn about k items).flatMap f).getLast? := by
  rw [lastOn, h.filter_flatMap]

/-! ## The same items in another order -/

theorem itemsOn_perm {items items' : List β} (h : items.Perm items') (k : κ) :
    (itemsOn about k items).Perm (itemsOn about k items') := h.filter _

/-- One item at most has one order. -/
theorem eq_of_perm_of_length_le_one {xs ys : List β} (h : xs.Perm ys)
    (hone : xs.length ≤ 1) : xs = ys := by
  rcases xs with _ | ⟨x, _ | ⟨y, xs⟩⟩
  · exact h.nil_eq
  · exact List.singleton_perm.mp h ▸ rfl
  · simp at hone

/-- A channel with no more than one item shows the same in any order. -/
theorem OnChannel.lastOn_perm (h : OnChannel channel about f)
    {items items' : List β} (hperm : items.Perm items') {k : κ}
    (hone : (itemsOn about k items).length ≤ 1) :
    lastOn channel k (items.flatMap f) =
      lastOn channel k (items'.flatMap f) := by
  rw [h.lastOn_flatMap, h.lastOn_flatMap,
    eq_of_perm_of_length_le_one (itemsOn_perm hperm k) hone]

/-- Items with different labels, when the channel goes with one label only. -/
theorem itemsOn_length_le_one {γ : Type u} {label : β → γ} {items : List β}
    {k : κ} (hlabels : (items.map label).Nodup)
    (hkey : ∀ x y, about x = some k → about y = some k → label x = label y) :
    (itemsOn about k items).length ≤ 1 := by
  have hnodup : ((itemsOn about k items).map label).Nodup :=
    hlabels.sublist (List.filter_sublist.map label)
  rcases hsplit : itemsOn about k items with _ | ⟨x, _ | ⟨y, rest⟩⟩
  · simp
  · simp
  · have habout : ∀ z ∈ x :: y :: rest, about z = some k := by
      intro z hz
      rw [← hsplit, itemsOn, List.mem_filter] at hz
      exact of_decide_eq_true hz.2
    have heq := hkey x y (habout x (by simp)) (habout y (by simp))
    rw [hsplit] at hnodup
    simp [heq] at hnodup

end MBusMeter.Lib
