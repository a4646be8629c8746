import MBusMeter.Proofs.FrameStream

/-!
# Falling into step

Wherever the decoder is when a stream begins, it may be in the middle of a
frame that was never sent and take what comes for the rest of it. That frame
ends by itself: every byte it takes is one more in the buffer, and when the
buffer is full it is given up or handed on. Then the decoder is between two
frames, or it looks for a flag, and in a stream whose frames have no flags
inside the next flag is one between two frames.

From there on it is in step with the sender. At most one frame that was not
sent has been handed on by then.
-/

namespace MBusMeter.Proofs

open Lib Firmware Firmware.HdlcFrame Spec

/-- Whatever comes, the frame the decoder is in has ended after `n` bytes. -/
def Expires : Nat → FrameState → Prop
  | 0, _ => False
  | n + 1, f => ∀ byte,
      (∃ g, hdlcHandleByte f byte = (g, none) ∧
        (Searching g ∨ Expires n g)) ∨
      (byte = FLAG_BYTE ∧
        ∃ frame, hdlcHandleByte f byte = (boundary, some frame))

theorem expires_collecting (n : Nat) :
    ∀ {buffer : Buffer}, Begun buffer.bytes → buffer.bytes ≠ [] →
      buffer.len + n = BUFFER_SIZE + 1 → Expires n (collecting buffer) := by
  induction n with
  | zero =>
      intro buffer _ _ hlen
      have hle := buffer.len_le_size
      omega
  | succ n ih =>
      intro buffer hbegun hne hlen byte
      rcases collecting_cases hbegun hne byte with ⟨next, hnext, ho⟩ |
        ⟨hflag, _, ho⟩ | ⟨g, ho, hsearch⟩
      · refine Or.inl ⟨_, ho, Or.inr (ih ?_ ?_ ?_)⟩
        · rw [hnext]
          exact hbegun.append hne [byte]
        · rw [hnext]
          exact List.append_ne_nil_of_left_ne_nil hne _
        · rw [Buffer.len, hnext, List.length_append, List.length_singleton]
          rw [Buffer.len] at hlen
          omega
      · exact Or.inr ⟨hflag, _, ho⟩
      · exact Or.inl ⟨g, ho, Or.inl hsearch⟩

theorem Tracked.cases {f : FrameState} (h : Tracked f) :
    Searching f ∨ f = boundary ∨ ∃ n ≤ BUFFER_SIZE, Expires n f := by
  rcases h with hsearch | ⟨buffer, hbegun, rfl⟩
  · exact Or.inl hsearch
  by_cases hne : buffer.bytes = []
  · exact Or.inr (Or.inl (collecting_nil hne))
  · have hle := buffer.len_le_size
    have hpos : 0 < buffer.len := List.length_pos_iff.mpr hne
    exact Or.inr (Or.inr ⟨BUFFER_SIZE + 1 - buffer.len, by omega,
      expires_collecting _ hbegun hne (by omega)⟩)

/-! ## To the first flag in step -/

/-- Fed with some bytes, the decoder falls into step at a flag, no later than
at the first that is behind `limit` bytes, or there is no such flag. One frame
at most is handed on before. -/
def FallsIn (limit : Nat) (f : FrameState) (xs : List UInt8) : Prop :=
  ∃ other : List Buffer, other.length ≤ 1 ∧
    ((∃ p d, xs = p ++ FLAG_BYTE :: d ∧
        Feeds f (p ++ [FLAG_BYTE]) other boundary ∧
        ∀ q r, xs = q ++ FLAG_BYTE :: r → limit ≤ q.length →
          p.length ≤ q.length) ∨
      ∃ g, Feeds f xs other g ∧
        ∀ q r, xs = q ++ FLAG_BYTE :: r → q.length < limit)

theorem FallsIn.mono {m n : Nat} {f : FrameState} {xs : List UInt8}
    (h : FallsIn m f xs) (hle : m ≤ n) : FallsIn n f xs := by
  obtain ⟨other, hone, ⟨p, d, hxs, hfeeds, hfirst⟩ | ⟨g, hfeeds, hnone⟩⟩ := h
  · exact ⟨other, hone, Or.inl ⟨p, d, hxs, hfeeds,
      fun q r hq hlim => hfirst q r hq (Nat.le_trans hle hlim)⟩⟩
  · exact ⟨other, hone, Or.inr ⟨g, hfeeds,
      fun q r hq => Nat.lt_of_lt_of_le (hnone q r hq) hle⟩⟩

theorem fallsIn_flag {limit : Nat} {f : FrameState} {other : List Buffer}
    (h : Feeds f [FLAG_BYTE] other boundary) (hone : other.length ≤ 1)
    (xs : List UInt8) : FallsIn limit f (FLAG_BYTE :: xs) :=
  ⟨other, hone, Or.inl ⟨[], xs, rfl, h, fun q _ _ _ => Nat.zero_le q.length⟩⟩

/-- One byte later. The byte itself may be a flag. -/
theorem FallsIn.cons {n : Nat} {f g : FrameState} {x : UInt8}
    {xs : List UInt8} (ho : hdlcHandleByte f x = (g, none))
    (h : FallsIn n g xs) : FallsIn (n + 1) f (x :: xs) := by
  obtain ⟨other, hone, ⟨p, d, hxs, hfeeds, hfirst⟩ | ⟨g', hfeeds, hnone⟩⟩ := h
  · refine ⟨other, hone, Or.inl ⟨x :: p, d, by rw [hxs]; rfl,
      (Run.silent ho).append hfeeds, fun q r hq hlim => ?_⟩⟩
    rcases List.cons_eq_append_iff.mp hq with ⟨rfl, _⟩ | ⟨q', rfl, hq'⟩
    · exact absurd hlim (Nat.not_succ_le_zero n)
    · exact Nat.succ_le_succ
        (hfirst q' r hq' (Nat.le_of_succ_le_succ hlim))
  · refine ⟨other, hone, Or.inr ⟨g', (Run.silent ho).append hfeeds,
      fun q r hq => ?_⟩⟩
    rcases List.cons_eq_append_iff.mp hq with ⟨rfl, _⟩ | ⟨q', rfl, hq'⟩
    · exact Nat.succ_pos n
    · exact Nat.succ_lt_succ (hnone q' r hq')

/-- From a state that searches it is the very first flag. -/
theorem searching_fallsIn {f : FrameState} (h : Searching f)
    (xs : List UInt8) : FallsIn 0 f xs := by
  by_cases hflag : FLAG_BYTE ∈ xs
  · obtain ⟨p, d, rfl, hnoise⟩ := List.eq_append_cons_of_mem hflag
    refine ⟨[], Nat.zero_le _, Or.inl ⟨p, d, rfl,
      (feeds_noise h hnoise).append (feeds_searching h 0), ?_⟩⟩
    intro q r hq _
    refine Nat.not_lt.mp fun hlt => hnoise ?_
    have hget : (p ++ FLAG_BYTE :: d)[q.length]? = some FLAG_BYTE := by
      rw [hq, List.getElem?_append_right (Nat.le_refl _), Nat.sub_self]
      rfl
    rw [List.getElem?_append_left hlt] at hget
    exact List.mem_of_getElem? hget
  · refine ⟨[], Nat.zero_le _, Or.inr ⟨f, feeds_noise h hflag, ?_⟩⟩
    intro q r hq
    refine absurd ?_ hflag
    rw [hq]
    exact List.mem_append_right q List.mem_cons_self

theorem expires_fallsIn (n : Nat) :
    ∀ {f : FrameState} (xs : List UInt8), Expires n f → FallsIn n f xs := by
  induction n with
  | zero => intro f xs h; exact h.elim
  | succ n ih =>
      intro f xs h
      rcases xs with _ | ⟨x, xs⟩
      · refine ⟨[], Nat.zero_le _, Or.inr ⟨f, Run.nil _ _, ?_⟩⟩
        intro q r hq
        exact absurd hq.symm (List.append_ne_nil_of_right_ne_nil q
          (List.cons_ne_nil _ r))
      rcases h x with ⟨g, ho, hsearch | hexpires⟩ | ⟨rfl, frame, ho⟩
      · exact ((searching_fallsIn hsearch xs).cons ho).mono (by omega)
      · exact (ih xs hexpires).cons ho
      · exact fallsIn_flag (Run.emit ho) (Nat.le_refl 1) xs

/-- From wherever the decoder is, when a flag comes first. -/
theorem fallsIn {f : FrameState} (h : Tracked f) (xs : List UInt8) :
    FallsIn BUFFER_SIZE f (FLAG_BYTE :: xs) := by
  rcases h.cases with hsearch | rfl | ⟨n, hn, hexpires⟩
  · exact fallsIn_flag (feeds_searching hsearch 0) (Nat.zero_le 1) xs
  · exact fallsIn_flag (feeds_flags 1) (Nat.zero_le 1) xs
  · exact (expires_fallsIn n _ hexpires).mono hn

/-! ## From a flag of the stream on -/

/-- A byte is in the first or in the second of two lists. -/
theorem split_append {α : Type} {x : α} {xs ys p d : List α}
    (h : xs ++ ys = p ++ x :: d) :
    (∃ q, p = xs ++ q ∧ ys = q ++ x :: d) ∨
      ∃ q, xs = p ++ x :: q ∧ d = q ++ ys := by
  rcases List.append_eq_append_iff.mp h with ⟨q, hp, hys⟩ | ⟨q, hxs, hd⟩
  · exact Or.inl ⟨q, hp, hys⟩
  rcases List.cons_eq_append_iff.mp hd with ⟨rfl, hys⟩ | ⟨q', rfl, hd'⟩
  · refine Or.inl ⟨[], ?_, hys⟩
    rw [hxs, List.append_nil, List.append_nil]
  · exact Or.inr ⟨q', hxs, hd'⟩

def cleanWire (ss : List CleanFrame) (trail : Nat) : List UInt8 :=
  streamWire (ss.map CleanFrame.toFramed) trail

theorem cleanWire_nil (trail : Nat) :
    cleanWire [] trail = FLAG_BYTE :: flags trail := rfl

theorem cleanWire_cons (s : CleanFrame) (ss : List CleanFrame) (trail : Nat) :
    cleanWire (s :: ss) trail = FLAG_BYTE :: (flags s.lead ++
      (s.frame.bytes ++ cleanWire ss trail)) := by
  simp only [cleanWire, streamWire, List.map_cons, List.flatMap_cons,
    Framed.wire, List.append_assoc]
  rfl

theorem cleanWire_eq_append (ss : List CleanFrame) (trail : Nat) :
    ∃ p, cleanWire ss trail = p ++ [FLAG_BYTE] := by
  induction ss with
  | nil => exact ⟨flags trail, List.replicate_succ'⟩
  | cons s ss ih =>
      obtain ⟨p, hp⟩ := ih
      refine ⟨FLAG_BYTE :: (flags s.lead ++ (s.frame.bytes ++ p)), ?_⟩
      rw [cleanWire_cons, hp]
      simp

theorem cleanWire_append (front : List CleanFrame) (s : CleanFrame)
    (back : List CleanFrame) (trail : Nat) :
    cleanWire (front ++ s :: back) trail =
      cleanWire front s.lead ++ (s.frame.bytes ++ cleanWire back trail) := by
  induction front with
  | nil => rw [List.nil_append, cleanWire_cons, cleanWire_nil]; rfl
  | cons s₀ front ih =>
      rw [List.cons_append, cleanWire_cons, ih, cleanWire_cons]
      simp only [List.cons_append, List.append_assoc]

/-- The flag in front of a frame that is far enough behind. -/
theorem flag_behind {front : List CleanFrame} {s : CleanFrame} {n : Nat}
    (back : List CleanFrame) (trail : Nat)
    (h : n < (cleanWire front s.lead).length) :
    ∃ q r, cleanWire (front ++ s :: back) trail = q ++ FLAG_BYTE :: r ∧
      n ≤ q.length ∧ q.length < (cleanWire front s.lead).length := by
  obtain ⟨q, hq⟩ := cleanWire_eq_append front s.lead
  rw [hq, List.length_append, List.length_singleton] at h ⊢
  refine ⟨q, s.frame.bytes ++ cleanWire back trail, ?_,
    Nat.le_of_lt_succ h, Nat.lt_succ_self _⟩
  rw [cleanWire_append, hq, List.append_assoc, List.singleton_append]

/-- A flag in a run of flags has flags behind it. -/
theorem flags_split {n : Nat} {p d : List UInt8}
    (h : flags n = p ++ FLAG_BYTE :: d) : ∃ m, d = flags m := by
  have hall : ∀ b ∈ d, b = FLAG_BYTE := by
    intro b hb
    refine List.eq_of_mem_replicate (?_ : b ∈ flags n)
    rw [h]
    exact List.mem_append_right p (List.mem_cons_of_mem _ hb)
  exact ⟨d.length, List.eq_replicate_iff.mpr ⟨rfl, hall⟩⟩

/-- What is left of a stream behind one of its flags: the frames from some
frame on, whose opening flag is that one or one behind it. -/
def LeftOver (ss : List CleanFrame) (p d : List UInt8) : Prop :=
  ∃ missed caught, ss = missed ++ caught ∧
    Feeds boundary d (caught.map fun s => s.frame) boundary ∧
    ∀ front s back, ss = front ++ s :: back →
      p.length < (cleanWire front s.lead).length →
      missed.length ≤ front.length

theorem leftOver_all {ss : List CleanFrame} {p d : List UInt8}
    (h : Feeds boundary d (ss.map fun s => s.frame) boundary) :
    LeftOver ss p d :=
  ⟨[], ss, rfl, h, fun front _ _ _ _ => Nat.zero_le front.length⟩

theorem LeftOver.cons {s : CleanFrame} {ss : List CleanFrame}
    {q d : List UInt8} (h : LeftOver ss q d) :
    LeftOver (s :: ss)
      (FLAG_BYTE :: (flags s.lead ++ (s.frame.bytes ++ q))) d := by
  obtain ⟨missed, caught, rfl, hfeeds, hfirst⟩ := h
  refine ⟨s :: missed, caught, rfl, hfeeds, fun front s' back hss hlt => ?_⟩
  rcases front with _ | ⟨s₀, front⟩
  · injection hss with hs _
    rw [← hs, cleanWire_nil] at hlt
    simp only [List.length_cons, List.length_append] at hlt
    omega
  · injection hss with hs hss
    subst hs
    rw [cleanWire_cons] at hlt
    simp only [List.length_cons, List.length_append] at hlt
    exact Nat.succ_le_succ (hfirst front s' back hss (by omega))

/-- Behind some flags in front of a frame, which are not the only ones. -/
theorem feeds_rest (s : CleanFrame) (ss : List CleanFrame) (trail m : Nat) :
    Feeds boundary (flags m ++ (s.frame.bytes ++ cleanWire ss trail))
      ((s :: ss).map fun s => s.frame) boundary := by
  have hhead := feeds_frame s.isFrame m
  have htail := (feeds_framed (ss.map CleanFrame.toFramed)).append
    (feeds_flags trail)
  have hall := hhead.append htail
  rw [List.append_nil, List.map_map, List.append_assoc,
    List.append_assoc] at hall
  exact hall

theorem leftOver (trail : Nat) (ss : List CleanFrame) :
    ∀ {p d : List UInt8}, cleanWire ss trail = p ++ FLAG_BYTE :: d →
      LeftOver ss p d := by
  induction ss with
  | nil =>
      intro p d h
      rw [cleanWire_nil, ← List.singleton_append] at h
      obtain ⟨m, rfl⟩ := flags_split (show flags (1 + trail) = _ from
        (flags_add 1 trail).trans h)
      exact leftOver_all (feeds_flags m)
  | cons s ss ih =>
      intro p d h
      rw [cleanWire_cons] at h
      rcases List.cons_eq_append_iff.mp h with ⟨rfl, hd⟩ | ⟨p', rfl, hp⟩
      · injection hd with _ hd
        subst hd
        exact leftOver_all (feeds_rest s ss trail s.lead)
      rcases split_append hp with ⟨q, rfl, hq⟩ | ⟨q, hflags, rfl⟩
      · rcases split_append hq with ⟨q', rfl, hq'⟩ | ⟨q', hinside, rfl⟩
        · exact (ih hq').cons
        · refine absurd ?_ s.clean
          rw [hinside]
          exact List.mem_append_right q List.mem_cons_self
      · obtain ⟨m, rfl⟩ := flags_split hflags
        exact leftOver_all (feeds_rest s ss trail m)

/-! ## The whole stream -/

/-- Wherever the decoder is when a stream of clean frames begins, it hands on
one thing at most that was not sent, and then the frames from some frame on,
no later than the first whose opening flag comes after as many bytes as the
buffer holds. -/
theorem resync (expectedLen : Int32) (history : List UInt8)
    (ss : List CleanFrame) (trail : Nat) :
    ∃ (missed caught : List CleanFrame) (other : List Buffer),
      ss = missed ++ caught ∧ other.length ≤ 1 ∧
      (outputs hdlcHandleByte
        (after hdlcHandleByte (hdlcFrameInit expectedLen) history)
        (cleanWire ss trail)).reduceOption =
          other ++ caught.map (fun s => s.frame) ∧
      ∀ front s back, ss = front ++ s :: back →
        1024 < (cleanWire front s.lead).length →
        missed.length ≤ front.length := by
  obtain ⟨wire, hwire⟩ : ∃ wire, cleanWire ss trail = FLAG_BYTE :: wire := by
    cases ss with
    | nil => exact ⟨_, cleanWire_nil trail⟩
    | cons s ss => exact ⟨_, cleanWire_cons s ss trail⟩
  have hfalls := fallsIn (tracked_after expectedLen history) wire
  rw [← hwire] at hfalls
  obtain ⟨other, hone, ⟨p, d, hsplit, hfeeds, hfirst⟩ | ⟨g, hfeeds, hnone⟩⟩ :=
    hfalls
  · obtain ⟨missed, caught, hss, htail, hmissed⟩ := leftOver trail ss hsplit
    refine ⟨missed, caught, other, hss, hone, ?_, fun front s back hfront hlt =>
      hmissed front s back hfront ?_⟩
    · rw [hsplit, ← List.singleton_append, ← List.append_assoc]
      exact (hfeeds.append htail).emitted
    · obtain ⟨q, r, hq, hle, hin⟩ := flag_behind back trail hlt
      exact Nat.lt_of_le_of_lt (hfirst q r (hfront ▸ hq) hle) hin
  · refine ⟨ss, [], other, (List.append_nil ss).symm, hone, ?_,
      fun front s back hfront hlt => ?_⟩
    · rw [hfeeds.emitted]
      exact (List.append_nil other).symm
    · obtain ⟨q, r, hq, hle, _⟩ := flag_behind back trail hlt
      exact absurd (hnone q r (hfront ▸ hq)) (Nat.not_lt.mpr hle)

end MBusMeter.Proofs
