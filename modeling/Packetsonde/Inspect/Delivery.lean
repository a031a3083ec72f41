import Packetsonde.Inspect.Stream

/-!
# Packetsonde — the profile stream over a lossy channel (`ps_pp_apply_json`)

The lines of a profile stream may be lost, come twice or come in another order. The reader takes a keyframe at
any time and a delta only if it is the next one, so that its copy is the profile as it was at some line, and it
knows which (`At`). Three facts about the lines of a run carry this (`Log`): the keyframe makes the copy, the
next delta brings it one line further, and every other delta is refused.

A line that is too long to be printed is like one that is lost. The keyframe is found by the first `"entities"`
in it and the bracket that follows, so a host of that name and a bracket in the path of the program hide it.
-/

namespace Packetsonde.Inspect

open Packetsonde.Lib
open Packetsonde.Central
open List

/-! ## The producer -/

structure Producer where
  model : Model
  started : Bool

/-- A printed line, with the number and the entities that the profile had at it. -/
structure Message where
  keyframe : Bool
  seq : UInt64
  view : List (Field 544 × Facts)
  line : Bytes

def produce (s : Producer) : Step → Producer × List Message
  | .fold a nowMs => ({ s with model := fold s.model a nowMs }, [])
  | .rates r => ({ s with model := { s.model with rates := r } }, [])
  | .render host =>
    let (started, m, line) := streamRender s.started s.model host
    (⟨m, started⟩, (line.map fun line => ⟨!s.started, m.seq, m.ent.view, line⟩).toList)

def messages : Producer → List Step → List Message
  | _, [] => []
  | s, x :: xs => (produce s x).2 ++ messages (produce s x).1 xs

def Along (P : Producer → Step → Prop) : Producer → List Step → Prop
  | _, [] => True
  | s, x :: xs => P s x ∧ Along P (produce s x).1 xs

/-- There is room for every entity, and each object that is printed fits the reader's buffer. -/
def Within (s : Producer) : Step → Prop
  | .fold a _ => (s.model.ent.ids ++ (visits s.model a).map Visit.id).toFinset.card ≤ ppMaxEnt
  | .rates _ => True
  | .render _ =>
    if s.started then ∀ e ∈ s.model.ent.list, e.dirty = true → (flatText e.opMembers).length < 2048
    else ∀ e ∈ s.model.ent.list, (flatText e.members).length < 2048

/-- The array of a keyframe is found, and the number of a delta is a new one. -/
def Unmistaken (s : Producer) : Step → Prop
  | .render host => if s.started then s.model.seq + 1 ≠ 0 else Clear (asc "entities") (keyframeHead s.model host)
  | .fold _ _ | .rates _ => True

instance (s : Producer) (x : Step) : Decidable (Within s x) :=
  match x with
  | .fold a _ => inferInstanceAs
      (Decidable ((s.model.ent.ids ++ (visits s.model a).map Visit.id).toFinset.card ≤ ppMaxEnt))
  | .rates _ => isTrue trivial
  | .render _ => inferInstanceAs (Decidable
      (if s.started then ∀ e ∈ s.model.ent.list, e.dirty = true → (flatText e.opMembers).length < 2048
        else ∀ e ∈ s.model.ent.list, (flatText e.members).length < 2048))

instance (s : Producer) (x : Step) : Decidable (Unmistaken s x) :=
  match x with
  | .render host => inferInstanceAs (Decidable
      (if s.started then s.model.seq + 1 ≠ 0 else Clear (asc "entities") (keyframeHead s.model host)))
  | .fold _ _ | .rates _ => isTrue trivial

instance decidableAlong (P : Producer → Step → Prop) [∀ s x, Decidable (P s x)] :
    (s : Producer) → (xs : List Step) → Decidable (Along P s xs)
  | _, [] => isTrue trivial
  | s, x :: xs =>
    have := decidableAlong P (produce s x).1 xs
    inferInstanceAs (Decidable (P s x ∧ Along P (produce s x).1 xs))

/-! ## The consumer -/

def applyAll (c : Model) (lines : List Bytes) : Model := lines.foldl (fun c line => (applyJson c line).1) c

/-- Whatever is refused changes nothing. -/
theorem applyJson_desync {c : Model} {line : Bytes} (h : (applyJson c line).2 = .desync) :
    (applyJson c line).1 = c := by
  unfold applyJson at h ⊢
  dsimp only at h ⊢
  split at h
  · rw [if_pos ‹_›]
  · rw [if_neg ‹_›]
    split at h
    · cases h
    · rw [if_neg ‹_›]
      split at h
      · rw [if_pos ‹_›]
      · rw [if_neg ‹_›]
        split at h
        · rw [if_pos ‹_›]
        · cases h

/-- A line is taken and leads to the state of the message. -/
def Takes (epoch : Field 24) (c : Model) (p : Message) : Prop :=
  ∃ c', applyJson c p.line = (c', .ok) ∧ c'.epoch = epoch ∧ c'.seq = p.seq ∧ c'.ent.view = p.view

/-- What the lines do to a consumer of the same epoch. -/
structure Log (epoch : Field 24) (ps : List Message) : Prop where
  keyframe : ∀ p ∈ ps, p.keyframe = true → ∀ c, Takes epoch c p
  next : ∀ p ∈ ps, p.keyframe = false → ∀ q ∈ ps, q.seq + 1 = p.seq →
    ∀ c, c.epoch = epoch → c.seq = q.seq → c.ent.view = q.view → Takes epoch c p
  other : ∀ p ∈ ps, p.keyframe = false → ∀ c, c.epoch = epoch → c.seq + 1 ≠ p.seq →
    applyJson c p.line = (c, .desync)
  unique : ∀ p ∈ ps, ∀ q ∈ ps, p.seq = q.seq → p.view = q.view

def At (epoch : Field 24) (ps : List Message) (c : Model) : Prop :=
  c.epoch = epoch ∧ ∃ p ∈ ps, p.seq = c.seq ∧ c.ent.view = p.view

section Deliver

variable {epoch : Field 24} {ps : List Message} {c : Model}

theorem Takes.at {p : Message} (h : Takes epoch c p) (hp : p ∈ ps) : At epoch ps (applyJson c p.line).1 := by
  obtain ⟨c', happly, hepoch, hseq, hview⟩ := h
  rw [happly]
  exact ⟨hepoch, p, hp, hseq.symm, hview⟩

/-- Whichever line arrives next, the consumer is at some line. -/
theorem Log.at_apply (hlog : Log epoch ps) (hc : At epoch ps c) {p : Message} (hp : p ∈ ps) :
    At epoch ps (applyJson c p.line).1 := by
  obtain ⟨hepoch, q, hq, hseq, hview⟩ := hc
  cases hkey : p.keyframe with
  | true => exact (hlog.keyframe p hp hkey c).at hp
  | false =>
    by_cases hnext : c.seq + 1 = p.seq
    · exact (hlog.next p hp hkey q hq (hseq ▸ hnext) c hepoch hseq.symm hview).at hp
    · rw [hlog.other p hp hkey c hepoch hnext]
      exact ⟨hepoch, q, hq, hseq, hview⟩

theorem Log.at_applyAll (hlog : Log epoch ps) (hc : At epoch ps c) {lines : List Bytes}
    (hlines : ∀ d ∈ lines, d ∈ ps.map Message.line) : At epoch ps (applyAll c lines) := by
  induction lines generalizing c with
  | nil => exact hc
  | cons d lines ih =>
    obtain ⟨hd, hrest⟩ := forall_mem_cons.mp hlines
    obtain ⟨p, hp, rfl⟩ := mem_map.mp hd
    exact ih (hlog.at_apply hc hp) hrest

end Deliver

/-! ## The lines of a run -/

/-- What holds between the steps of the producer, with the lines printed so far. -/
structure Kept (epoch : Field 24) (ps : List Message) (s : Producer) : Prop where
  epoch_eq : s.model.epoch = epoch
  fresh : s.started = false → ps = []
  log : Log epoch ps
  le : ∀ p ∈ ps, p.seq.toNat ≤ s.model.seq.toNat
  delta_ne : ∀ p ∈ ps, p.keyframe = false → p.seq ≠ 0
  last : s.started = true →
    ∃ view, Behind view s.model.ent ∧ ∀ p ∈ ps, p.seq = s.model.seq → p.view = view

theorem log_nil (epoch : Field 24) : Log epoch [] := ⟨nofun, nofun, nofun, nofun⟩

/-- The state of the producer before the first line. -/
theorem kept_begin (m : Model) : Kept m.epoch [] ⟨m, false⟩ :=
  ⟨rfl, fun _ => rfl, log_nil _, nofun, nofun, nofun⟩

variable {n : UInt64} {m : Model} {host : Option CString} {s : Producer}

/-- The next number is a new one. -/
theorem toNat_next (h : n + 1 ≠ 0) : (n + 1).toNat = n.toNat + 1 := by
  have hlt := n.toNat_lt
  have hne : (n + 1).toNat ≠ 0 := fun h0 => h (UInt64.toNat_inj.mp h0)
  rw [UInt64.toNat_add, UInt64.toNat_one] at hne ⊢
  omega

/-- A keyframe is the first line of the log. -/
theorem log_keyframe (h : KeyframeFits m host) :
    Log m.epoch [⟨true, 0, m.ent.clean.view, callsText false (keyframeCalls m host)⟩] where
  keyframe := by
    intro p hp _ c
    obtain rfl := mem_singleton.mp hp
    obtain ⟨c', happly, hepoch, hseq, hview⟩ := apply_keyframe h c
    exact ⟨c', happly, hepoch, hseq, hview.trans (view_clean m.ent).symm⟩
  next := by
    intro p hp hkey
    obtain rfl := mem_singleton.mp hp
    cases hkey
  other := by
    intro p hp hkey
    obtain rfl := mem_singleton.mp hp
    cases hkey
  unique := by
    intro p hp q hq _
    rw [mem_singleton.mp hp, mem_singleton.mp hq]

/-- A delta goes behind the lines before it. -/
theorem Log.concat {ps : List Message} (hlog : Log m.epoch ps)
    (hobjects : ∀ e ∈ m.ent.list, e.dirty = true → (flatText e.opMembers).length < 2048)
    (hn : m.seq = n + 1) (hnew : n + 1 ≠ 0) (hle : ∀ p ∈ ps, p.seq.toNat ≤ n.toNat)
    (hdelta : ∀ p ∈ ps, p.keyframe = false → p.seq ≠ 0) {view : List (Field 544 × Facts)}
    (hbehind : Behind view m.ent) (hlast : ∀ p ∈ ps, p.seq = n → p.view = view) :
    Log m.epoch (ps ++ [⟨false, m.seq, m.ent.clean.view, callsText false (deltaCalls m)⟩]) := by
  have hnext := toNat_next hnew
  have hold : ∀ p ∈ ps, p.seq ≠ m.seq := by
    intro p hp heq
    have := hle p hp
    rw [heq, hn, hnext] at this
    omega
  constructor
  · intro p hp hkey c
    rw [mem_append, mem_singleton] at hp
    rcases hp with hp | rfl
    · exact hlog.keyframe p hp hkey c
    · cases hkey
  · intro p hp hkey q hq hseq c hepoch hc hview
    rw [mem_append, mem_singleton] at hp hq
    rcases hp with hp | rfl
    · rcases hq with hq | rfl
      · exact hlog.next p hp hkey q hq hseq c hepoch hc hview
      · -- no earlier line follows the new one, even if the number after it is 0
        exfalso
        have hpn := hle p hp
        have hp0 := hdelta p hp hkey
        by_cases hwrap : m.seq + 1 = 0
        · exact hp0 (hseq.symm.trans hwrap)
        · have := toNat_next hwrap
          rw [← hseq, this, hn, hnext] at hpn
          omega
    · rcases hq with hq | rfl
      · have hqn : q.seq = n := (UInt64.add_left_inj 1).mp (hseq.trans hn)
        obtain ⟨c', happly, hepoch', hseq', hview'⟩ := apply_delta hobjects hepoch (hc ▸ hseq)
          (by rw [hview, hlast q hq hqn]; exact hbehind)
        exact ⟨c', happly, hepoch', hseq', hview'.trans (view_clean m.ent).symm⟩
      · exact absurd hseq (by simp)
  · intro p hp hkey c hepoch hne
    rw [mem_append, mem_singleton] at hp
    rcases hp with hp | rfl
    · exact hlog.other p hp hkey c hepoch hne
    · rw [applyJson_delta, if_neg (not_not.mpr hepoch.symm), if_pos (Ne.symm hne)]
  · intro p hp q hq heq
    rw [mem_append, mem_singleton] at hp hq
    rcases hp with hp | rfl
    · rcases hq with hq | rfl
      · exact hlog.unique p hp q hq heq
      · exact absurd heq (hold p hp)
    · rcases hq with hq | rfl
      · exact absurd heq.symm (hold q hq)
      · rfl

/-- What is printed is the text of the calls, and short enough. -/
theorem line_of_calls {cs : List Call} {line : Bytes} (h : PsJson.calls streamBuf cs = some line) :
    line = callsText false cs ∧ (callsText false cs).length < streamBuf := by
  rw [calls_eq (by decide)] at h
  split at h
  · exact ⟨(Option.some.inj h).symm, ‹_›⟩
  · cases h

theorem kept_keyframe {epoch : Field 24} {ps : List Message} (h : Kept epoch ps s)
    (hstarted : s.started = false) (hwithin : Within s (.render host))
    (hclear : Unmistaken s (.render host)) :
    Kept epoch (ps ++ (produce s (.render host)).2) (produce s (.render host)).1 := by
  obtain rfl := h.fresh hstarted
  obtain rfl := h.epoch_eq
  simp only [Within, Unmistaken, hstarted, Bool.false_eq_true, if_false] at hwithin hclear
  have hlast : ∀ ps : List Message, (∀ p ∈ ps, p.view = s.model.ent.clean.view) →
      ∃ view, Behind view s.model.ent.clean ∧ ∀ p ∈ ps, p.seq = 0 → p.view = view := by
    intro ps hps
    exact ⟨s.model.ent.view, behind_clean s.model.ent, fun p hp _ =>
      (hps p hp).trans (view_clean s.model.ent)⟩
  unfold produce streamRender
  rw [hstarted]
  simp only [Bool.false_eq_true, if_false, Bool.not_false, nil_append]
  cases hline : PsJson.calls streamBuf (keyframeCalls s.model host) with
  | none =>
    rw [Option.map_none, Option.toList_none]
    exact ⟨rfl, nofun, log_nil _, nofun, nofun, fun _ => hlast [] nofun⟩
  | some line =>
    rw [Option.map_some, Option.toList_some]
    obtain ⟨rfl, hlen⟩ := line_of_calls hline
    refine ⟨rfl, nofun, log_keyframe ⟨hclear, hwithin, hlen⟩, ?_, ?_, fun _ => hlast _ ?_⟩
    · exact forall_mem_singleton.mpr (Nat.le_refl 0)
    · exact forall_mem_singleton.mpr nofun
    · exact forall_mem_singleton.mpr rfl

theorem kept_delta {epoch : Field 24} {ps : List Message} (h : Kept epoch ps s)
    (hstarted : s.started = true) (hwithin : Within s (.render host))
    (hnew : Unmistaken s (.render host)) :
    Kept epoch (ps ++ (produce s (.render host)).2) (produce s (.render host)).1 := by
  obtain rfl := h.epoch_eq
  simp only [Within, Unmistaken, hstarted, if_true] at hwithin hnew
  obtain ⟨view, hbehind, hview⟩ := h.last hstarted
  have hnext := toNat_next hnew
  unfold produce streamRender deltaJson
  rw [hstarted]
  by_cases hdirty : s.model.ent.list.any Entity.dirty = true
  · -- the lines so far have smaller numbers
    have hle : ∀ p ∈ ps, p.seq.toNat ≤ (s.model.seq + 1).toNat := fun p hp => by
      have := h.le p hp
      omega
    have hold : ∀ p ∈ ps, p.seq ≠ s.model.seq + 1 := fun p hp heq => by
      have := h.le p hp
      rw [heq, hnext] at this
      omega
    simp only [hdirty, if_true, Bool.not_true]
    cases hline : PsJson.calls streamBuf (deltaCalls { s.model with seq := s.model.seq + 1 }) with
    | none =>
      rw [Option.map_none, Option.toList_none, append_nil]
      exact ⟨rfl, nofun, h.log, hle, h.delta_ne, fun _ => ⟨s.model.ent.view, behind_clean s.model.ent,
        fun p hp heq => absurd heq (hold p hp)⟩⟩
    | some line =>
      rw [Option.map_some, Option.toList_some]
      obtain ⟨rfl, -⟩ := line_of_calls hline
      refine ⟨rfl, nofun, ?_, ?_, ?_, fun _ => ⟨s.model.ent.view, behind_clean s.model.ent, ?_⟩⟩
      · exact Log.concat (m := { s.model with seq := s.model.seq + 1 }) h.log hwithin rfl hnew h.le h.delta_ne
          hbehind hview
      · exact forall_mem_append.mpr ⟨hle, forall_mem_singleton.mpr (Nat.le_refl _)⟩
      · exact forall_mem_append.mpr ⟨h.delta_ne, forall_mem_singleton.mpr fun _ => hnew⟩
      · exact forall_mem_append.mpr ⟨fun p hp heq => absurd heq (hold p hp),
          forall_mem_singleton.mpr fun _ => view_clean s.model.ent⟩
  · rw [Bool.not_eq_true] at hdirty
    simp only [hdirty, Bool.false_eq_true, if_false, if_true, Option.map_none, Option.toList_none, append_nil]
    exact ⟨rfl, nofun, h.log, h.le, h.delta_ne, fun _ => ⟨view, hbehind, hview⟩⟩

/-- A step that prints nothing and keeps the numbers. -/
theorem Kept.quiet {epoch : Field 24} {ps : List Message} (h : Kept epoch ps s)
    (hepoch : m.epoch = s.model.epoch) (hseq : m.seq = s.model.seq)
    (hbehind : ∀ view, Behind view s.model.ent → Behind view m.ent) :
    Kept epoch (ps ++ []) ⟨m, s.started⟩ := by
  rw [append_nil]
  refine ⟨hepoch.trans h.epoch_eq, h.fresh, h.log, ?_, h.delta_ne, fun hs => ?_⟩
  · show ∀ p ∈ ps, p.seq.toNat ≤ m.seq.toNat
    rw [hseq]
    exact h.le
  · obtain ⟨view, hview, hlast⟩ := h.last hs
    refine ⟨view, hbehind view hview, ?_⟩
    show ∀ p ∈ ps, p.seq = m.seq → p.view = view
    rw [hseq]
    exact hlast

/-- One step of the producer. -/
theorem kept_step {epoch : Field 24} {ps : List Message} (h : Kept epoch ps s) {x : Step}
    (hwithin : Within s x) (hclear : Unmistaken s x) :
    Kept epoch (ps ++ (produce s x).2) (produce s x).1 := by
  cases x with
  | fold a nowMs => exact h.quiet rfl rfl fun view hview => fold_behind hview hwithin nowMs
  | rates r => exact h.quiet rfl rfl fun view hview => hview
  | render host =>
    cases hstarted : s.started with
    | false => exact kept_keyframe h hstarted hwithin hclear
    | true => exact kept_delta h hstarted hwithin hclear

/-- The lines of a whole run. -/
theorem log_messages {xs : List Step} (hwithin : Along Within ⟨m, false⟩ xs)
    (hclear : Along Unmistaken ⟨m, false⟩ xs) : Log m.epoch (messages ⟨m, false⟩ xs) := by
  have hrun : ∀ (xs : List Step) (ps : List Message) (s : Producer), Kept m.epoch ps s →
      Along Within s xs → Along Unmistaken s xs → Log m.epoch (ps ++ messages s xs) := by
    intro xs
    induction xs with
    | nil =>
      intro ps s h _ _
      rw [messages, append_nil]
      exact h.log
    | cons x xs ih =>
      intro ps s h hwithin hclear
      rw [messages, ← append_assoc]
      exact ih _ _ (kept_step h hwithin.1 hclear.1) hwithin.2 hclear.2
  exact hrun xs [] ⟨m, false⟩ (kept_begin m) hwithin hclear

/-- In every run of a producer, and whatever lines of it arrive behind a keyframe, in any order and number, the
consumer has the entities that the profile had at the number the consumer has. -/
theorem replica_at_seq (m : Model) (xs : List Step) (hwithin : Along Within ⟨m, false⟩ xs)
    (hclear : Along Unmistaken ⟨m, false⟩ xs) (c : Model) (k : Message) (hk : k ∈ messages ⟨m, false⟩ xs)
    (hkey : k.keyframe = true) (lines : List Bytes)
    (hlines : ∀ d ∈ lines, d ∈ (messages ⟨m, false⟩ xs).map Message.line) :
    ((applyAll c (k.line :: lines)).epoch = m.epoch ∧
      (∃ p ∈ messages ⟨m, false⟩ xs, p.seq = (applyAll c (k.line :: lines)).seq) ∧
      ∀ p ∈ messages ⟨m, false⟩ xs, p.seq = (applyAll c (k.line :: lines)).seq →
        ∀ x, x ∈ (applyAll c (k.line :: lines)).ent.view ↔ x ∈ p.view) ∧
    ∀ (c' : Model) (d : Bytes), (applyJson c' d).2 = .desync →
      (applyJson c' d).1.epoch = c'.epoch ∧ (applyJson c' d).1.seq = c'.seq ∧
        (applyJson c' d).1.ent = c'.ent := by
  have hlog := log_messages hwithin hclear
  have hat : At m.epoch (messages ⟨m, false⟩ xs) (applyAll c (k.line :: lines)) :=
    hlog.at_applyAll ((hlog.keyframe k hk hkey c).at hk) hlines
  obtain ⟨hepoch, p, hp, hseq, hview⟩ := hat
  refine ⟨⟨hepoch, ⟨p, hp, hseq⟩, fun q hq hqseq x => ?_⟩, fun c' d hdesync => ?_⟩
  · rw [hview, hlog.unique p hp q hq (hseq.trans hqseq.symm)]
  · rw [applyJson_desync hdesync]
    exact ⟨rfl, rfl, rfl⟩

/-- The line a stream begins with. -/
theorem mem_messages_first (hstarted : s.started = false) (host : Option CString)
    (hline : (callsText false (keyframeCalls s.model host)).length < streamBuf) (xs : List Step) :
    (⟨true, 0, s.model.ent.clean.view, callsText false (keyframeCalls s.model host)⟩ : Message) ∈
      messages s (.render host :: xs) := by
  rw [messages, mem_append]
  left
  unfold produce streamRender
  rw [hstarted]
  simp only [Bool.false_eq_true, if_false, calls_eq (show 0 < streamBuf by decide), if_pos hline, Option.map_some,
    Option.toList_some, Bool.not_false, mem_singleton]

/-- A file is opened, the stream begins, another file is opened and a delta follows. -/
def twoLines : List Step :=
  [.fold (opens quotedFile) 1, .render none, .fold Activity.odd 2, .render none]

/-- The keyframe comes twice, and the delta between. -/
theorem twoLines_replica :
    ∃ k ∈ messages ⟨appModel, false⟩ twoLines, k.keyframe = true ∧
      ∀ p ∈ messages ⟨appModel, false⟩ twoLines,
        p.seq = (applyAll appModel
          (k.line :: ((messages ⟨appModel, false⟩ twoLines).map Message.line ++ [k.line]))).seq →
        ∀ x, x ∈ (applyAll appModel
          (k.line :: ((messages ⟨appModel, false⟩ twoLines).map Message.line ++ [k.line]))).ent.view ↔
          x ∈ p.view := by
  have hk := mem_messages_first (s := ⟨fold appModel (opens quotedFile) 1, false⟩)
    rfl none (by decide +kernel) [.fold Activity.odd 2, .render none]
  have hmem := mem_append_right (produce ⟨appModel, false⟩
    (.fold (opens quotedFile) 1)).2 hk
  refine ⟨_, hmem, rfl, ?_⟩
  refine (replica_at_seq appModel twoLines (by decide +kernel) (by decide +kernel) appModel _ hmem rfl _ ?_).1.2.2
  intro d hd
  rw [mem_append, mem_singleton] at hd
  rcases hd with hd | rfl
  · exact hd
  · exact mem_map_of_mem hmem

/-- A program in a directory whose name has brackets. -/
def bracketModel : Model := freshModel ⟨asc "/opt/[x]/app", by decide⟩ firstEpoch

def bracketRun : List Step := [.fold Activity.odd 1, .render (some ⟨asc "entities", by decide⟩)]

/-- On a host that is named like the array the entities of its keyframe are not found. -/
theorem bracket_keyframe_lost :
    Along Within ⟨bracketModel, false⟩ bracketRun ∧
      ∃ k ∈ messages ⟨bracketModel, false⟩ bracketRun, k.keyframe = true ∧
        (applyAll bracketModel [k.line]).seq = k.seq ∧ (applyAll bracketModel [k.line]).ent.view = [] ∧
        k.view ≠ [] := by
  have hk := mem_messages_first (s := ⟨fold bracketModel Activity.odd 1, false⟩) rfl
    (some ⟨asc "entities", by decide⟩) (by decide +kernel) []
  exact ⟨by decide +kernel, _, mem_append_right (produce ⟨bracketModel, false⟩ (.fold Activity.odd 1)).2 hk,
    rfl, by decide +kernel, by decide +kernel, by decide +kernel⟩

end Packetsonde.Inspect
