import Packetsonde.Inspect.Profile
import Mathlib.Data.Finset.Card

/-!
# Packetsonde — the profile stream and its reader

A profile is changed by records and printed now and then; a reader applies every line. Between two lines the
reader lags behind by the entities that are marked (`Sync`), and a line brings it up to date, as long as no
entity had to make room for another one, the line and its objects fit their buffers and the array of a
keyframe is found (`Fits`).

`stream_converges` is about whole runs; each kind of step has its lemma.
-/

namespace Packetsonde.Inspect

open Packetsonde.Lib
open Packetsonde.Central
open List

/-! ## Runs -/

structure Session where
  producer : Model
  started : Bool
  consumer : Model

inductive Step where
  | fold (a : Activity.Record) (nowMs : Int64)
  | render (host : Option CString)
  | rates (r : Rates)

/-- What became of a line: how it was applied, and the entities of the profile and of the copy after it. -/
structure Printed where
  status : Apply
  producer : List (Field 544 × Facts)
  consumer : List (Field 544 × Facts)

def step (s : Session) : Step → Session × List Printed
  | .fold a nowMs => ({ s with producer := fold s.producer a nowMs }, [])
  | .rates r => ({ s with producer := { s.producer with rates := r } }, [])
  | .render host =>
    let (started, m, line) := streamRender s.started s.producer host
    match line with
    | none => (⟨m, started, s.consumer⟩, [])
    | some line =>
      let (c, status) := applyJson s.consumer line
      (⟨m, started, c⟩, [⟨status, m.ent.view, c.ent.view⟩])

def run : Session → List Step → List Printed
  | _, [] => []
  | s, x :: xs => (step s x).2 ++ run (step s x).1 xs

/-! ## What a step needs -/

/-- The keyframe fits, its array is found, and each entity fits the reader's buffer. -/
structure KeyframeFits (m : Model) (host : Option CString) : Prop where
  clear : Clear (asc "entities") (keyframeHead m host)
  objects : ∀ e ∈ m.ent.list, (flatText e.members).length < 2048
  line : (callsText false (keyframeCalls m host)).length < streamBuf

/-- The delta fits, and each of its entities fits the reader's buffer. -/
structure DeltaFits (m : Model) : Prop where
  objects : ∀ e ∈ m.ent.list, e.dirty = true → (flatText e.opMembers).length < 2048
  line : (callsText false (deltaCalls { m with seq := m.seq + 1 })).length < streamBuf

/-- The condition on a step, in the state before it. -/
def Fits (s : Session) : Step → Prop
  | .fold a _ => (s.producer.ent.ids ++ (visits s.producer a).map Visit.id).toFinset.card ≤ ppMaxEnt
  | .rates _ => True
  | .render host => if s.started then DeltaFits s.producer else KeyframeFits s.producer host

def Meets : Session → List Step → Prop
  | _, [] => True
  | s, x :: xs => Fits s x ∧ Meets (step s x).1 xs

instance (m : Model) (host : Option CString) : Decidable (KeyframeFits m host) :=
  decidable_of_iff (Clear (asc "entities") (keyframeHead m host) ∧
      (∀ e ∈ m.ent.list, (flatText e.members).length < 2048) ∧
      (callsText false (keyframeCalls m host)).length < streamBuf)
    ⟨fun h => ⟨h.1, h.2.1, h.2.2⟩, fun h => ⟨h.clear, h.objects, h.line⟩⟩

instance (m : Model) : Decidable (DeltaFits m) :=
  decidable_of_iff ((∀ e ∈ m.ent.list, e.dirty = true → (flatText e.opMembers).length < 2048) ∧
      (callsText false (deltaCalls { m with seq := m.seq + 1 })).length < streamBuf)
    ⟨fun h => ⟨h.1, h.2⟩, fun h => ⟨h.objects, h.line⟩⟩

instance (s : Session) (x : Step) : Decidable (Fits s x) :=
  match x with
  | .fold a _ => inferInstanceAs
      (Decidable ((s.producer.ent.ids ++ (visits s.producer a).map Visit.id).toFinset.card ≤ ppMaxEnt))
  | .rates _ => isTrue trivial
  | .render host => inferInstanceAs
      (Decidable (if s.started then DeltaFits s.producer else KeyframeFits s.producer host))

instance decidableMeets : (s : Session) → (xs : List Step) → Decidable (Meets s xs)
  | _, [] => isTrue trivial
  | s, x :: xs =>
    have := decidableMeets (step s x).1 xs
    inferInstanceAs (Decidable (Fits s x ∧ Meets (step s x).1 xs))

/-! ## Folding -/

/-- The copy is as the profile was before its marked entities were changed. -/
abbrev Behind (t : List (Field 544 × Facts)) (es : Entities) : Prop :=
  Lags Entity.id Entity.facts Entity.dirty t es.list

variable {es : Entities} {id : Field 544} {ids : List (Field 544)} {t : List (Field 544 × Facts)}
    {m c : Model} {host : Option CString} {s : Session}

/-- A new id needs room, and then is one of those that are kept. -/
theorem room_of_card (hnew : id ∉ es.ids)
    (hcard : (es.ids ++ id :: ids).toFinset.card ≤ ppMaxEnt) : es.list.length < ppMaxEnt := by
  have hnodup : (id :: es.ids).Nodup := nodup_cons.mpr ⟨hnew, es.nodup⟩
  have hsub : (id :: es.ids).toFinset ⊆ (es.ids ++ id :: ids).toFinset := by
    intro x hx
    rw [mem_toFinset, mem_cons] at hx
    rw [mem_toFinset, mem_append, mem_cons]
    rcases hx with hx | hx
    · exact .inr (.inl hx)
    · exact .inl hx
  have hle := Finset.card_le_card hsub
  have hlen : es.ids.length = es.list.length := length_map _
  rw [toFinset_card_of_nodup hnodup, length_cons] at hle
  omega

theorem update_behind (h : Behind t es) (hcard : (es.ids ++ id :: ids).toFinset.card ≤ ppMaxEnt) (kind : Kind)
    (value : Field 512) (set : Facts → Facts) (ts : Field 24) (nowMs : Int64) :
    Behind t (es.update id kind value set ts nowMs) ∧
      ((es.update id kind value set ts nowMs).ids ++ ids).toFinset.card ≤ ppMaxEnt := by
  unfold Entities.update
  split
  · rename_i i hfind
    refine ⟨Lags.modify (f := Entity.visit set ts nowMs) h (fun _ => rfl) (fun _ => rfl) i,
      Nat.le_trans (Finset.card_le_card ?_) hcard⟩
    have hids : (es.modify i (Entity.visit set ts nowMs) fun _ => rfl).ids = es.ids :=
      map_id_modify es.list i fun _ => rfl
    rw [hids]
    intro x hx
    rw [mem_toFinset, mem_append] at hx ⊢
    exact hx.imp_right (mem_cons_of_mem id)
  · rename_i hfind
    have hroom := room_of_card (id_not_mem hfind) hcard
    rw [dif_pos hroom]
    refine ⟨h.concat rfl, Nat.le_trans (Finset.card_le_card ?_) hcard⟩
    intro x hx
    rw [mem_toFinset] at hx ⊢
    unfold Entities.ids Entities.push at hx
    rw [map_append, append_assoc] at hx
    exact hx

theorem fold_behind (h : Behind t m.ent) {a : Activity.Record}
    (hcard : (m.ent.ids ++ (visits m a).map Visit.id).toFinset.card ≤ ppMaxEnt) (nowMs : Int64) :
    Behind t (fold m a nowMs).ent := by
  have hloop : ∀ (vs : List Visit) (es : Entities), Behind t es →
      (es.ids ++ vs.map Visit.id).toFinset.card ≤ ppMaxEnt →
      Behind t (vs.foldl (fun es v => es.update v.id v.kind v.value v.set a.ts nowMs) es) := by
    intro vs
    induction vs with
    | nil => exact fun es hes _ => hes
    | cons v vs ih =>
      intro es hes hcard
      obtain ⟨hnext, hroom⟩ := update_behind hes hcard v.kind v.value v.set a.ts nowMs
      exact ih _ hnext hroom
  exact hloop (visits m a) m.ent h hcard

/-! ## Printing and applying -/

theorem view_clean (es : Entities) : es.clean.view = es.view := by
  unfold Entities.view Entities.clean
  rw [map_map]
  rfl

/-- After a line the flags are cleared and the copy is the profile. -/
theorem behind_clean (es : Entities) : Behind es.view es.clean := by
  rw [← view_clean]
  exact lags_map es.clean.list

theorem clear_deltaHead (m : Model) : Clear (asc "ops") (deltaHead m) := by
  have htype : ¬ Call.Imitates (asc "ops") (.member (asc "type") (.str (asc "delta"))) := by decide
  have hseq := bracket_not_mem_int (k := asc "seq") (by decide) m.seq.toInt64.toInt
  have hbegin : ¬ Call.Imitates (asc "ops") .objectBegin := not_false
  have hint (k : Bytes) (i : Int) : ¬ Call.Imitates (asc "ops") (.member k (.int i)) := not_false
  unfold deltaHead
  rw [clear_cons hbegin, clear_cons (hint _ _), clear_cons htype, Clear]
  split
  · exact forall_mem_singleton.mpr hseq
  · exact (clear_cons (hint _ _) []).mpr trivial

/-- A keyframe that fits makes the copy. -/
theorem apply_keyframe (h : KeyframeFits m host) (c : Model) :
    ∃ c', applyJson c (callsText false (keyframeCalls m host)) = (c', .ok) ∧ c'.epoch = m.epoch ∧ c'.seq = 0 ∧
      c'.ent.view = m.ent.view := by
  have hplain : plainKeys (keyframeCalls m host) = true := all_append.trans (Bool.and_eq_true_iff.mpr
    ⟨rfl, Activity.all_arrayCalls rfl rfl (fun e => (tells_members e).id.plain) _⟩)
  have htype : jsonExtractString (callsText false (keyframeCalls m host)) (asc "type") 16 =
      ⟨asc "keyframe", true⟩ := extract_word (.mk hplain rfl) (by decide) (by decide)
  have hepoch : Activity.extractField (callsText false (keyframeCalls m host)) (asc "epoch") = m.epoch :=
    Activity.extractField_calls (.mk hplain rfl)
  have hent : (upsertAll .empty (callsText false (keyframeCalls m host)) (asc "entities")).view = m.ent.view := by
    have hall := upsertAll_calls (show Name (asc "entities") by decide) (by decide) rfl rfl h.clear
      tells_members h.objects [.objectEnd] .empty
    have hfilter : m.ent.list.filter (fun _ => true) = m.ent.list := filter_true _
    have hlags : Lags Entity.id Entity.facts (fun _ => true) [] m.ent.list := .nil fun _ _ => rfl
    have htold := hlags.upserts m.ent.nodup m.ent.length_le
    rw [hfilter] at htold
    exact hall.trans htold
  unfold applyJson
  rw [htype, hepoch]
  exact ⟨_, rfl, rfl, rfl, hent⟩

/-- A delta is taken if it is the next one of the same epoch. -/
theorem applyJson_delta (m c : Model) :
    applyJson c (callsText false (deltaCalls m)) =
      if m.epoch ≠ c.epoch then (c, .desync)
      else if m.seq ≠ c.seq + 1 then (c, .desync)
      else ({ c with seq := m.seq, ent := upsertAll c.ent (callsText false (deltaCalls m)) (asc "ops") }, .ok) := by
  have hplain : plainKeys (deltaCalls m) = true := all_append.trans (Bool.and_eq_true_iff.mpr
    ⟨rfl, Activity.all_arrayCalls rfl rfl (fun e => (tells_opMembers e).id.plain) _⟩)
  have htype : jsonExtractString (callsText false (deltaCalls m)) (asc "type") 16 = ⟨asc "delta", true⟩ :=
    extract_word (.mk hplain rfl) (by decide) (by decide)
  have hread : Activity.extractField (callsText false (deltaCalls m)) (asc "epoch") = m.epoch :=
    Activity.extractField_calls (.mk hplain rfl)
  have hnext : ((jsonExtractInt (callsText false (deltaCalls m)) (asc "seq")).getD 0).toUInt64 = m.seq := by
    rw [extractInt_calls (i := m.seq.toInt64.toInt) (.mk hplain rfl), Option.getD_some,
      Int64.ofInt_toInt, UInt64.toUInt64_toInt64]
  unfold applyJson
  dsimp only
  rw [htype, hread, hnext, if_neg (by decide), if_neg (by decide)]

/-- A delta that fits brings the copy up to date. -/
theorem apply_delta (hobjects : ∀ e ∈ m.ent.list, e.dirty = true →
      (flatText e.opMembers).length < 2048) (hepoch : c.epoch = m.epoch)
    (hseq : c.seq + 1 = m.seq) (hbehind : Behind c.ent.view m.ent) :
    ∃ c', applyJson c (callsText false (deltaCalls m)) = (c', .ok) ∧ c'.epoch = m.epoch ∧ c'.seq = m.seq ∧
      c'.ent.view = m.ent.view := by
  have hent : (upsertAll c.ent (callsText false (deltaCalls m)) (asc "ops")).view = m.ent.view := by
    have hdirty : ∀ e ∈ m.ent.list.filter Entity.dirty, (flatText e.opMembers).length < 2048 := by
      intro e he
      rw [mem_filter] at he
      exact hobjects e he.1 he.2
    have hall := upsertAll_calls (show Name (asc "ops") by decide) (by decide) rfl rfl (clear_deltaHead m)
      tells_opMembers hdirty [.objectEnd] c.ent
    exact hall.trans (hbehind.upserts m.ent.nodup m.ent.length_le)
  rw [applyJson_delta, if_neg (not_not.mpr hepoch.symm), if_neg (not_not.mpr hseq.symm)]
  exact ⟨_, rfl, hepoch, rfl, hent⟩

/-! ## The stream -/

/-- What holds between the steps, once there is a keyframe. -/
structure Sync (s : Session) : Prop where
  epoch : s.consumer.epoch = s.producer.epoch
  seq : s.consumer.seq = s.producer.seq
  behind : Behind s.consumer.ent.view s.producer.ent

/-- The line was applied, and the copy has the same entities. -/
def Printed.Agrees (p : Printed) : Prop := p.status = .ok ∧ ∀ x, x ∈ p.consumer ↔ x ∈ p.producer

theorem agrees_of_eq {p : Printed} (hstatus : p.status = .ok) (heq : p.consumer = p.producer) : p.Agrees :=
  ⟨hstatus, fun x => by rw [heq]⟩

/-- The first line is a keyframe. -/
theorem step_render_first (hstarted : s.started = false)
    (hline : (callsText false (keyframeCalls s.producer host)).length < streamBuf) {status : Apply}
    (happly : applyJson s.consumer (callsText false (keyframeCalls s.producer host)) = (c, status)) :
    step s (.render host) = (⟨{ s.producer with ent := s.producer.ent.clean, seq := 0 }, true, c⟩,
      [⟨status, s.producer.ent.clean.view, c.ent.view⟩]) := by
  have hcalls : PsJson.calls streamBuf (keyframeCalls s.producer host) =
      some (callsText false (keyframeCalls s.producer host)) := by
    rw [calls_eq (by decide), if_pos hline]
  unfold step streamRender
  rw [hstarted]
  simp only [Bool.false_eq_true, if_false, hcalls, happly]

theorem step_keyframe (hstarted : s.started = false) (hfits : KeyframeFits s.producer host) :
    Sync (step s (.render host)).1 ∧ ∀ p ∈ (step s (.render host)).2, p.Agrees := by
  obtain ⟨c', happly, hepoch, hseq, hent⟩ := apply_keyframe hfits s.consumer
  rw [step_render_first hstarted hfits.line happly]
  refine ⟨⟨hepoch, hseq, ?_⟩, forall_mem_singleton.mpr ?_⟩
  · rw [hent]
    exact behind_clean s.producer.ent
  · exact agrees_of_eq rfl (hent.trans (view_clean s.producer.ent).symm)

/-- The other ones are deltas. -/
theorem step_delta (hstarted : s.started = true) (hsync : Sync s) (hfits : DeltaFits s.producer)
    (host : Option CString) :
    Sync (step s (.render host)).1 ∧ ∀ p ∈ (step s (.render host)).2, p.Agrees := by
  unfold step streamRender deltaJson
  rw [hstarted]
  by_cases hdirty : s.producer.ent.list.any Entity.dirty = true
  · have hline : PsJson.calls streamBuf (deltaCalls { s.producer with seq := s.producer.seq + 1 }) =
        some (callsText false (deltaCalls { s.producer with seq := s.producer.seq + 1 })) := by
      rw [calls_eq (by decide), if_pos hfits.line]
    have hnext : s.consumer.seq + 1 = ({ s.producer with seq := s.producer.seq + 1 } : Model).seq := by
      rw [hsync.seq]
    obtain ⟨c', happly, hepoch, hseq, hent⟩ :=
      apply_delta (m := { s.producer with seq := s.producer.seq + 1 }) hfits.objects hsync.epoch hnext hsync.behind
    simp only [hdirty, if_true, hline, happly]
    refine ⟨⟨hepoch, hseq, ?_⟩, forall_mem_singleton.mpr ?_⟩
    · rw [hent]
      exact behind_clean s.producer.ent
    · exact agrees_of_eq rfl (hent.trans (view_clean s.producer.ent).symm)
  · rw [Bool.not_eq_true] at hdirty
    simp only [hdirty, Bool.false_eq_true, if_false, if_true]
    exact ⟨⟨hsync.epoch, hsync.seq, hsync.behind⟩, fun p hp => nomatch hp⟩

/-- One step: the copy stays in step, and what is printed agrees. -/
theorem step_sync {x : Step} (hsync : s.started = true → Sync s) (hfits : Fits s x) :
    ((step s x).1.started = true → Sync (step s x).1) ∧ ∀ p ∈ (step s x).2, p.Agrees := by
  cases x with
  | fold a nowMs =>
    refine ⟨fun hstarted => ?_, fun p hp => nomatch hp⟩
    obtain ⟨hepoch, hseq, hbehind⟩ := hsync hstarted
    exact ⟨hepoch, hseq, fold_behind hbehind hfits nowMs⟩
  | rates r =>
    refine ⟨fun hstarted => ?_, fun p hp => nomatch hp⟩
    obtain ⟨hepoch, hseq, hbehind⟩ := hsync hstarted
    exact ⟨hepoch, hseq, hbehind⟩
  | render host =>
    cases hstarted : s.started with
    | true =>
      have hdelta : DeltaFits s.producer := by simpa only [Fits, hstarted, if_true] using hfits
      obtain ⟨hnext, hagrees⟩ := step_delta hstarted (hsync hstarted) hdelta host
      exact ⟨fun _ => hnext, hagrees⟩
    | false =>
      have hkeyframe : KeyframeFits s.producer host := by
        simpa only [Fits, hstarted, Bool.false_eq_true, if_false] using hfits
      obtain ⟨hnext, hagrees⟩ := step_keyframe hstarted hkeyframe
      exact ⟨fun _ => hnext, hagrees⟩

/-- In every run whose steps all meet their conditions each line is applied, and after it the copy has the
entities of the profile. -/
theorem stream_converges (m c : Model) (xs : List Step) (hmeets : Meets ⟨m, false, c⟩ xs) :
    ∀ p ∈ run ⟨m, false, c⟩ xs, p.Agrees := by
  have hrun : ∀ (xs : List Step) (s : Session), (s.started = true → Sync s) → Meets s xs →
      ∀ p ∈ run s xs, p.Agrees := by
    intro xs
    induction xs with
    | nil => exact fun s _ _ p hp => nomatch hp
    | cons x xs ih =>
      intro s hsync hmeets p hp
      obtain ⟨hnext, hagrees⟩ := step_sync hsync hmeets.1
      rw [run, mem_append] at hp
      rcases hp with hp | hp
      · exact hagrees p hp
      · exact ih _ hnext hmeets.2 p hp
  exact hrun xs ⟨m, false, c⟩ (fun h => nomatch h) hmeets

/-- `ps_pp_init` for a program, without a baseline. -/
def freshModel (exe : CString) (epoch : Field 24) : Model where
  subject := ⟨.byExe, 0, .cut exe.bytes exe.noNul, 0, emptyField, emptyField, emptyField, []⟩
  rates := ⟨0, 0, 0⟩
  ent := .empty
  epoch
  seq := 0
  blFiles := .init exe
  denFiles := .init exe
  blDests := .init exe
  denDests := .init exe
  haveBaseline := false

def firstEpoch : Field 24 := ⟨asc "e1", by decide, by decide⟩

def appModel : Model := freshModel ⟨asc "/usr/bin/app", Activity.nul_not_mem_app⟩ firstEpoch

def opens (path : Field 512) : Activity.Record := { Activity.odd with path }

def quotedFile : Field 512 := ⟨asc "/srv/\"x\"", by decide, by decide⟩

def shortRun : List Step :=
  [.fold (opens quotedFile) 1, .fold Activity.odd 2, .render none]

theorem shortRun_converges : Meets ⟨appModel, false, appModel⟩ shortRun ∧
    ∀ p ∈ run ⟨appModel, false, appModel⟩ shortRun, p.Agrees :=
  have hmeets : Meets ⟨appModel, false, appModel⟩ shortRun := by decide +kernel
  ⟨hmeets, stream_converges appModel appModel shortRun hmeets⟩

def controlPath : Field 512 where
  bytes := List.replicate 170 1
  length_lt := by rw [length_replicate]; decide
  noNul := fun h => absurd (eq_of_mem_replicate h) (by decide)

/-- The object of the file does not fit the reader's buffer, and neither it nor what follows is applied. -/
theorem control_path_lost :
    ∃ p ∈ run ⟨appModel, false, appModel⟩ [.fold (opens controlPath) 1, .render none],
      p.status = .ok ∧ p.producer ≠ [] ∧ p.consumer = [] := by
  have hrun : run ⟨appModel, false, appModel⟩ [.fold (opens controlPath) 1, .render none] =
      (step ⟨fold appModel (opens controlPath) 1, false, appModel⟩ (.render none)).2 := by
    rw [run, run, run, append_nil]
    exact nil_append _
  rw [hrun, step_render_first rfl (by decide +kernel) rfl]
  refine ⟨_, mem_singleton_self _, ?_, ?_, ?_⟩
  · decide +kernel
  · decide +kernel
  · decide +kernel

end Packetsonde.Inspect
