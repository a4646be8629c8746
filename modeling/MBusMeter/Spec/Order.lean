import MBusMeter.Spec.Pdu
import Mathlib.Data.List.Perm.Subperm

/-!
# The same report in another order

A report says itself in which order its values come, so the meter is free to
choose one. This file is about reports that give every quantity once: one
value for each definition that counts, and no code twice. Such a report can be
put in another order, its definitions and its values alike. The definitions
that do not count stay where they are, and what comes out is such a report
again.
-/

namespace MBusMeter.Spec

open Lib Firmware Firmware.Pdu

def keptDefinitions (definitions : List Definition) : List Definition :=
  definitions.filter fun d => d.attr = 2

theorem keptCodes_eq (definitions : List Definition) :
    keptCodes definitions =
      (keptDefinitions definitions).map Definition.code := rfl

/-- A report that gives every quantity once. -/
structure DistinctReport where
  header : List UInt8
  definitions : List Definition
  values : List Reading
  header_len : header.length = 18
  definitions_le : definitions.length ≤ 255
  known : ∀ code ∈ keptCodes definitions, ∃ q : Quantity, q.code = code.bytes
  distinct : (keptCodes definitions).Nodup
  whole : ∀ r ∈ values, r.Whole
  one_each : values.length = (keptDefinitions definitions).length
  permits : ∀ x ∈ (keptDefinitions definitions).zip values,
    Permits x.1.code x.2
  size_le : (header ++ bodyWire definitions values).length ≤ BUFFER_SIZE

def DistinctReport.packet (r : DistinctReport) : Buffer :=
  ⟨r.header ++ bodyWire r.definitions r.values, r.size_le⟩

/-- The definitions that count, each with its value. -/
def DistinctReport.entries (r : DistinctReport) :
    List (Definition × Reading) :=
  (keptDefinitions r.definitions).zip r.values

/-- Other definitions in the places of those that count. -/
def refill : List Definition → List Definition → List Definition
  | d :: ds, k :: ks =>
      if d.attr = 2 then k :: refill ds ks else d :: refill ds (k :: ks)
  | ds, _ => ds

theorem DistinctReport.entries_fst (r : DistinctReport) :
    r.entries.map Prod.fst = keptDefinitions r.definitions :=
  List.map_fst_zip (Nat.le_of_eq r.one_each.symm)

theorem DistinctReport.entries_snd (r : DistinctReport) :
    r.entries.map Prod.snd = r.values :=
  List.map_snd_zip (Nat.le_of_eq r.one_each)

theorem keptDefinitions_cons (d : Definition) (ds : List Definition) :
    keptDefinitions (d :: ds) =
      if d.attr = 2 then d :: keptDefinitions ds else keptDefinitions ds := by
  by_cases h : d.attr = 2 <;> simp [keptDefinitions, h]

/-- What counts is then what was put in. -/
theorem keptDefinitions_refill {ds ks : List Definition}
    (hlen : ks.length = (keptDefinitions ds).length)
    (hks : ∀ k ∈ ks, k.attr = 2) : keptDefinitions (refill ds ks) = ks := by
  fun_induction refill ds ks with
  | case1 d ds k ks hd ih =>
      rw [keptDefinitions_cons, if_pos hd, List.length_cons,
        List.length_cons] at hlen
      rw [keptDefinitions_cons, if_pos (hks k List.mem_cons_self),
        ih (by omega) fun x hx => hks x (List.mem_cons_of_mem k hx)]
  | case2 d ds k ks hd ih =>
      rw [keptDefinitions_cons, if_neg hd] at hlen
      rw [keptDefinitions_cons, if_neg hd, ih hlen hks]
  | case3 ds ks hnil =>
      rcases ks with _ | ⟨k, ks⟩
      · exact List.eq_nil_of_length_eq_zero hlen.symm
      rcases ds with _ | ⟨d, ds⟩
      · cases hlen
      · exact absurd rfl (hnil d ds k ks rfl)

/-- As often as before, when what was put in is what was there. -/
theorem refill_perm {ds ks : List Definition}
    (hks : ks.Perm (keptDefinitions ds)) : (refill ds ks).Perm ds := by
  have hrest : (refill ds ks).Perm (ks ++ ds.filter fun d => ¬ d.attr = 2) := by
    have hlen := hks.length_eq
    clear hks
    fun_induction refill ds ks with
    | case1 d ds k ks hd ih =>
        rw [keptDefinitions_cons, if_pos hd, List.length_cons,
          List.length_cons] at hlen
        simpa [hd] using ih (by omega)
    | case2 d ds k ks hd ih =>
        rw [keptDefinitions_cons, if_neg hd] at hlen
        rw [List.filter_cons_of_pos (by simpa using hd)]
        exact ((ih hlen).cons d).trans List.perm_middle.symm
    | case3 ds ks hnil =>
        rcases ks with _ | ⟨k, ks⟩
        · have hnone : ∀ d ∈ ds, ¬ d.attr = 2 := by
            simpa [keptDefinitions] using
              List.eq_nil_of_length_eq_zero hlen.symm
          rw [List.nil_append,
            List.filter_eq_self.mpr fun d hd => by simpa using hnone d hd]
        rcases ds with _ | ⟨d, ds⟩
        · cases hlen
        · exact absurd rfl (hnil d ds k ks rfl)
  have hall := List.filter_append_perm (fun d : Definition => d.attr = 2) ds
  refine hrest.trans ((hks.append_right _).trans ?_)
  simpa [keptDefinitions] using hall

/-! ## In another order -/

section

variable (r : DistinctReport) {order : List (Definition × Reading)}
  (h : order.Perm r.entries)

include h

theorem order_fst : (order.map Prod.fst).Perm
    (keptDefinitions r.definitions) :=
  r.entries_fst ▸ h.map Prod.fst

theorem order_snd : (order.map Prod.snd).Perm r.values :=
  r.entries_snd ▸ h.map Prod.snd

theorem order_kept :
    keptDefinitions (refill r.definitions (order.map Prod.fst)) =
      order.map Prod.fst := by
  have hperm := order_fst r h
  refine keptDefinitions_refill hperm.length_eq fun k hk => ?_
  have hmem := hperm.mem_iff.mp hk
  rw [keptDefinitions, List.mem_filter] at hmem
  exact of_decide_eq_true hmem.2

theorem order_codes :
    (keptCodes (refill r.definitions (order.map Prod.fst))).Perm
      (keptCodes r.definitions) := by
  rw [keptCodes_eq, keptCodes_eq, order_kept r h]
  exact (order_fst r h).map Definition.code

theorem order_size :
    (bodyWire (refill r.definitions (order.map Prod.fst))
      (order.map Prod.snd)).length =
      (bodyWire r.definitions r.values).length := by
  have hdefinitions := refill_perm (order_fst r h)
  have hvalues := order_snd r h
  have hd := (hdefinitions.map Definition.wire).flatten.length_eq
  have hv := (hvalues.map Reading.wire).flatten.length_eq
  simp only [bodyWire, frontWire, definitionsWire, valuesWire,
    List.length_append, List.length_cons, hd, hv]

/-- The report with its entries in another order. -/
def DistinctReport.reordered : DistinctReport where
  header := r.header
  definitions := refill r.definitions (order.map Prod.fst)
  values := order.map Prod.snd
  header_len := r.header_len
  definitions_le := (refill_perm (order_fst r h)).length_eq ▸ r.definitions_le
  known := fun code hcode =>
    r.known code ((order_codes r h).mem_iff.mp hcode)
  distinct := (order_codes r h).nodup_iff.mpr r.distinct
  whole := fun v hv => r.whole v ((order_snd r h).mem_iff.mp hv)
  one_each := by rw [order_kept r h, List.length_map, List.length_map]
  permits := by
    rw [order_kept r h, List.zip_map']
    intro x hx
    obtain ⟨y, hy, rfl⟩ := List.mem_map.mp hx
    exact r.permits y (h.mem_iff.mp hy)
  size_le := by
    rw [List.length_append, order_size r h, ← List.length_append]
    exact r.size_le

theorem DistinctReport.reordered_entries :
    (r.reordered h).entries = order := by
  rw [DistinctReport.entries, DistinctReport.reordered, order_kept r h,
    List.zip_map']
  exact List.map_id order

end

end MBusMeter.Spec
