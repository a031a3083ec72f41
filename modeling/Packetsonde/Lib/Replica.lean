import Mathlib.Data.List.Nodup

/-!
# Replicated tables

A table of entries under keys, and a replica that is told of the entries which have changed. The replica
sets the value of a key it has, and puts a key it does not have behind the others, while there is room.

`Lags t es` says that the replica `t` is as the table `es` was when its marked entries were still as they
are in `t`, or not there. It is kept while entries are changed and marked, and telling the replica of the
marked entries, in order, brings it up to date (`Lags.upserts`).
-/

namespace Packetsonde.Lib

open List

section Upsert

variable {K V : Type} [DecidableEq K]

/-- The value of a key is set; a new key needs room among `n` entries. -/
def upsert : Nat → List (K × V) → K → V → List (K × V)
  | n, [], k, v => if 0 < n then [(k, v)] else []
  | n, (k', v') :: t, k, v => if k' = k then (k, v) :: t else (k', v') :: upsert (n - 1) t k v

theorem upsert_append {n : Nat} {t : List (K × V)} {k : K} (h : k ∉ t.map Prod.fst) (t' : List (K × V)) (v : V) :
    upsert n (t ++ t') k v = t ++ upsert (n - t.length) t' k v := by
  induction t generalizing n with
  | nil => rfl
  | cons x t ih =>
    rw [map_cons, mem_cons, not_or] at h
    rw [cons_append, upsert, if_neg fun heq => h.1 heq.symm, ih h.2, length_cons, cons_append,
      Nat.sub_sub, Nat.add_comm 1]

end Upsert

section Lags

variable {K V E : Type} (key : E → K) (val : E → V) (marked : E → Bool)

/-- The replica lags behind the table by the marked entries. -/
inductive Lags : List (K × V) → List E → Prop where
  | nil {es : List E} (h : ∀ e ∈ es, marked e = true) : Lags [] es
  | cons {x : K × V} {e : E} {t : List (K × V)} {es : List E} (hkey : x.1 = key e)
      (hval : marked e = false → x.2 = val e) (h : Lags t es) : Lags (x :: t) (e :: es)

variable {key val marked}

/-- A replica that is up to date. -/
theorem lags_map (es : List E) : Lags key val marked (es.map fun e => (key e, val e)) es := by
  induction es with
  | nil => exact .nil fun e he => nomatch he
  | cons e es ih => exact .cons rfl (fun _ => rfl) ih

variable {t : List (K × V)} {es : List E}

variable (h : Lags key val marked t es)

include h

/-- An entry is changed. -/
theorem Lags.modify {f : E → E}
    (hkey : ∀ e, key (f e) = key e) (hmarked : ∀ e, marked (f e) = true) (i : Nat) :
    Lags key val marked t (es.modify i f) := by
  induction h generalizing i with
  | @nil es hall =>
    refine .nil fun e he => ?_
    obtain ⟨j, hj, rfl⟩ := mem_iff_getElem.mp he
    rw [getElem_modify]
    split
    · exact hmarked _
    · exact hall _ (getElem_mem _)
  | @cons x e t es hk hval hrest ih =>
    cases i with
    | zero => exact .cons (hk.trans (hkey e).symm) (fun hclean => absurd (hmarked e) (by simp [hclean])) hrest
    | succ i => exact .cons hk hval (ih i)

/-- An entry is put behind the others. -/
theorem Lags.concat {e : E}
    (he : marked e = true) : Lags key val marked t (es ++ [e]) := by
  induction h with
  | nil hall => exact .nil (forall_mem_append.mpr ⟨hall, forall_mem_singleton.mpr he⟩)
  | cons hk hval _ ih => exact .cons hk hval ih

/-- Telling the replica of the marked entries brings it up to date. -/
theorem Lags.upserts [DecidableEq K]
    (hnodup : (es.map key).Nodup) {n : Nat} (hroom : es.length ≤ n) :
    (es.filter marked).foldl (fun t e => upsert n t (key e) (val e)) t = es.map fun e => (key e, val e) := by
  -- `done` is the part of the table that the replica has been told of
  have hloop : ∀ (es : List E) (done t : List (K × V)), Lags key val marked t es → (es.map key).Nodup →
      (∀ e ∈ es, key e ∉ done.map Prod.fst) → done.length + es.length ≤ n →
      (es.filter marked).foldl (fun t e => upsert n t (key e) (val e)) (done ++ t) =
        done ++ es.map fun e => (key e, val e) := by
    intro es
    induction es with
    | nil =>
      intro done t h _ _ _
      cases h
      rfl
    | cons e es ih =>
      intro done t h hnodup hnew hroom
      rw [map_cons, nodup_cons] at hnodup
      rw [length_cons] at hroom
      obtain ⟨he, hes⟩ := forall_mem_cons.mp hnew
      have hnext (t' : List (K × V)) (ht' : Lags key val marked t' es) :
          (es.filter marked).foldl (fun t e => upsert n t (key e) (val e)) (done ++ (key e, val e) :: t') =
            done ++ (e :: es).map fun e => (key e, val e) := by
        have hstep := ih (done ++ [(key e, val e)]) t' ht' hnodup.2 (fun e' he' => by
          rw [map_append, mem_append, map_singleton, mem_singleton]
          rintro (hmem | heq)
          · exact hes e' he' hmem
          · exact hnodup.1 (mem_map.mpr ⟨e', he', heq⟩)) (by
          rw [length_append, length_singleton]
          omega)
        rw [append_assoc, append_assoc] at hstep
        exact hstep
      cases h with
      | nil hall =>
        obtain ⟨hmark, hrest⟩ := forall_mem_cons.mp hall
        have hpos : 0 < n - done.length := by omega
        rw [filter_cons_of_pos hmark, foldl_cons, upsert_append he, upsert, if_pos hpos]
        exact hnext [] (.nil hrest)
      | @cons x _ t' _ hk hval hrest =>
        cases hmark : marked e with
        | true =>
          rw [filter_cons_of_pos hmark, foldl_cons, upsert_append he, upsert, if_pos hk]
          exact hnext t' hrest
        | false =>
          have hx : x = (key e, val e) := Prod.ext hk (hval hmark)
          rw [filter_cons_of_neg (by rw [hmark]; decide), hx]
          exact hnext t' hrest
  have hall := hloop es [] t h hnodup (fun _ _ => not_mem_nil) (by simpa using hroom)
  exact hall

end Lags

end Packetsonde.Lib
