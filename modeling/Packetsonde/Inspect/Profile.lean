import Packetsonde.Activity.Record
import Packetsonde.Baseline.Monitor
import Packetsonde.Lib.Replica

/-!
# Packetsonde — process profiles (`proc_profile.c`, `proc_profile_delta.c`, `render_stream.c`)

A profile collects what a process has touched: files, destinations and programs, each an entity under its
id, in a table of 512. When the table is full, a new entity takes the place of the one that was not touched
for the longest time. A profile is shown to others as a keyframe, with all entities, and deltas, with those
that have changed; `ps_pp_apply_json` keeps a copy from these lines.

An entity that is printed and fits the reader's buffer is read back as it was (`readFacts_tells`), so to
the copy a line is a list of entities to be set (`upsert_tells`).
-/

namespace Packetsonde.Inspect

open Packetsonde.Lib
open Packetsonde.Central
open Packetsonde.Baseline (BaselineSet baselineDecide baselineDecideDest)
open List

/-! ## Profiles -/

def ppMaxEnt : Nat := 512

/-- `enum ps_pp_kind`. -/
inductive Kind where
  | file
  | dest
  | proc
  deriving DecidableEq, Repr

/-- `enum ps_pp_verdict`. -/
inductive PpVerdict where
  | covered
  | novel
  | anomaly
  | na
  deriving DecidableEq, Repr

structure Facts where
  kind : Kind
  value : Field 512
  state : Field 16
  count : UInt64
  first : Field 24
  last : Field 24
  verdict : PpVerdict
  deriving DecidableEq

/-- `struct ps_pp_entity`; only entities that are present are kept. -/
structure Entity where
  id : Field 544
  facts : Facts
  dirty : Bool
  lastMs : Int64
  deriving DecidableEq

/-- `ent` and `nent`. -/
structure Entities where
  list : List Entity
  length_le : list.length ≤ ppMaxEnt
  nodup : (list.map Entity.id).Nodup

/-- `mode` of a subject. -/
inductive SubjectMode where
  | byPid
  | byExe
  deriving DecidableEq, Repr

/-- `struct ps_pp_subject`. -/
structure Subject where
  mode : SubjectMode
  pid : Int32
  exe : Field 256
  uid : Int32
  cgroup : Field 256
  macLabel : Field 128
  macMode : Field 32
  anc : List (Int32 × Field 64)

structure Rates where
  openS : Int64
  connectS : Int64
  execS : Int64

/-- `struct ps_pp_model`. -/
structure Model where
  subject : Subject
  rates : Rates
  ent : Entities
  epoch : Field 24
  seq : UInt64
  blFiles : BaselineSet
  denFiles : BaselineSet
  blDests : BaselineSet
  denDests : BaselineSet
  haveBaseline : Bool

/-! ## Folding in a record -/

def emptyField {n : Nat} [NeZero n] : Field n := ⟨[], Nat.pos_of_neZero n, nul_not_mem_nil⟩

/-- `touch`. -/
def Facts.touch (f : Facts) (ts : Field 24) : Facts :=
  { f with first := if f.count = 0 then ts else f.first, last := ts, count := f.count + 1 }

/-- An entity as `ent_get` makes it. -/
def Entity.fresh (id : Field 544) (kind : Kind) (value : Field 512) : Entity :=
  ⟨id, ⟨kind, value, emptyField, 0, emptyField, emptyField, .na⟩, false, 0⟩

def Entity.visit (set : Facts → Facts) (ts : Field 24) (nowMs : Int64) (e : Entity) : Entity :=
  ⟨e.id, (set e.facts).touch ts, true, nowMs⟩

/-- The loop of `ent_get` for the entity with the least `last_ms`. -/
def oldestFrom : Nat → Option (Nat × Int64) → List Entity → Option (Nat × Int64)
  | _, best, [] => best
  | i, best, e :: es =>
    let best := match best with
      | none => (i, e.lastMs)
      | some (b, ms) => if e.lastMs < ms then (i, e.lastMs) else (b, ms)
    oldestFrom (i + 1) (some best) es

def oldest (es : List Entity) : Nat := ((oldestFrom 0 none es).map Prod.fst).getD 0

theorem map_id_modify (es : List Entity) (i : Nat) {f : Entity → Entity} (hf : ∀ e, (f e).id = e.id) :
    (es.modify i f).map Entity.id = es.map Entity.id := by
  apply ext_getElem
  · rw [length_map, length_map, length_modify]
  · intro j hj hj'
    rw [getElem_map, getElem_map, getElem_modify]
    split
    · exact hf _
    · rfl

theorem id_not_mem {es : List Entity} {id : Field 544} (h : es.findIdx? (·.id = id) = none) :
    id ∉ es.map Entity.id := by
  intro hmem
  obtain ⟨e, he, rfl⟩ := mem_map.mp hmem
  simpa using findIdx?_eq_none_iff.mp h e he

namespace Entities

def empty : Entities := ⟨[], Nat.zero_le _, nodup_nil⟩

def ids (es : Entities) : List (Field 544) := es.list.map Entity.id

def view (es : Entities) : List (Field 544 × Facts) := es.list.map fun e => (e.id, e.facts)

def modify (es : Entities) (i : Nat) (f : Entity → Entity) (hf : ∀ e, (f e).id = e.id) : Entities :=
  ⟨es.list.modify i f, by rw [length_modify]; exact es.length_le, by
    rw [map_id_modify _ _ hf]; exact es.nodup⟩

def push (es : Entities) (e : Entity) (hroom : es.list.length < ppMaxEnt) (hnew : e.id ∉ es.ids) : Entities :=
  ⟨es.list ++ [e], by rw [length_append]; exact hroom, by
    rw [map_append]
    exact nodup_append.mpr ⟨es.nodup, nodup_singleton _, fun x hx y hy heq => by
      rw [map_singleton, mem_singleton] at hy
      exact hnew (by rw [← hy, ← heq]; exact hx)⟩⟩

def replace (es : Entities) (i : Nat) (e : Entity) (hnew : e.id ∉ es.ids) : Entities :=
  ⟨es.list.set i e, by rw [length_set]; exact es.length_le, by
    rw [map_set]
    exact es.nodup.set hnew⟩

/-- `ent_get` and what is then done to the entity. -/
def update (es : Entities) (id : Field 544) (kind : Kind) (value : Field 512) (set : Facts → Facts)
    (ts : Field 24) (nowMs : Int64) : Entities :=
  match hfind : es.list.findIdx? (·.id = id) with
  | some i => es.modify i (Entity.visit set ts nowMs) fun _ => rfl
  | none =>
    let e := (Entity.fresh id kind value).visit set ts nowMs
    if hroom : es.list.length < ppMaxEnt then es.push e hroom (id_not_mem hfind)
    else es.replace (oldest es.list) e (id_not_mem hfind)

def clean (es : Entities) : Entities :=
  ⟨es.list.map fun e => { e with dirty := false }, by rw [length_map]; exact es.length_le, by
    rw [map_map]; exact es.nodup⟩

end Entities

/-- `file_verdict` and `dest_verdict`; `decide` is the comparison with the two sets. -/
def verdictBy (decide : BaselineSet → BaselineSet → Bytes → Baseline.Verdict) (haveBaseline : Bool)
    (baseline denials : BaselineSet) (value : Bytes) : PpVerdict :=
  if haveBaseline then
    match decide baseline denials value with
    | .covered => .covered
    | .anomaly => .anomaly
    | .novel => .novel
  else .na

def fileVerdict (m : Model) (path : Bytes) : PpVerdict :=
  verdictBy baselineDecide m.haveBaseline m.blFiles m.denFiles path

def destVerdict (m : Model) (raddr : Bytes) : PpVerdict :=
  verdictBy baselineDecideDest m.haveBaseline m.blDests m.denDests raddr

def Kind.tag : Kind → Bytes
  | .file => asc "file:"
  | .dest => asc "dest:"
  | .proc => asc "proc:"

def entityId (kind : Kind) (value : Field 512) : Field 544 :=
  .cut (kind.tag ++ value.bytes) (by
    rw [mem_append, not_or]
    exact ⟨by cases kind <;> decide, value.noNul⟩)

/-- An entity that a record touches, and what becomes of its facts. -/
structure Visit where
  kind : Kind
  value : Field 512
  set : Facts → Facts

def Visit.id (v : Visit) : Field 544 := entityId v.kind v.value

def widen {n k : Nat} (h : n ≤ k) (f : Field n) : Field k := ⟨f.bytes, Nat.lt_of_lt_of_le f.length_lt h, f.noNul⟩

/-- The entities of a record, in the order of `ps_pp_fold`. -/
def visits (m : Model) (a : Activity.Record) : List Visit :=
  (if a.path.bytes ≠ [] then [⟨.file, a.path, fun f => { f with verdict := fileVerdict m a.path.bytes }⟩] else []) ++
  (a.sock.filter (·.raddr.bytes ≠ [])).map (fun s =>
    ⟨.dest, widen (by decide) s.raddr, fun f =>
      { f with state := s.state, verdict := destVerdict m s.raddr.bytes }⟩) ++
  (if a.event.bytes = asc "exec" ∧ a.path.bytes ≠ [] then
    [⟨.proc, a.path, fun f => { f with verdict := .na }⟩] else [])

/-- What `ps_pp_fold` learns of the subject. -/
def Subject.learn (s : Subject) (a : Activity.Record) : Subject :=
  if a.proc.exe.bytes = [] then s
  else
    { s with
      uid := a.proc.uid
      cgroup := if a.proc.cgroup.bytes ≠ [] then a.proc.cgroup else s.cgroup
      macLabel := if a.proc.macLabel.bytes ≠ [] then a.proc.macLabel else s.macLabel
      macMode := if a.proc.macMode.bytes ≠ [] then a.proc.macMode else s.macMode
      pid := if s.mode = .byPid then a.proc.pid else s.pid
      anc := if a.anc ≠ [] then a.anc.map fun e => (e.pid, e.comm) else s.anc }

/-- `ps_pp_fold`. -/
def fold (m : Model) (a : Activity.Record) (nowMs : Int64) : Model :=
  { m with
    subject := m.subject.learn a
    ent := (visits m a).foldl (fun es v => es.update v.id v.kind v.value v.set a.ts nowMs) m.ent }

/-! ## Printing -/

/-- `verdict_str`. -/
def PpVerdict.text : PpVerdict → Bytes
  | .covered => asc "covered"
  | .novel => asc "novel"
  | .anomaly => asc "anomaly"
  | .na => asc "na"

/-- `kind_str`. -/
def Kind.text : Kind → Bytes
  | .file => asc "file"
  | .dest => asc "dest"
  | .proc => asc "proc"

def Entity.members (e : Entity) : List (Bytes × Scalar) :=
  [(asc "id", .str e.id.bytes), (asc "kind", .str e.facts.kind.text), (asc "value", .str e.facts.value.bytes)] ++
  (if e.facts.state.bytes ≠ [] then [(asc "state", .str e.facts.state.bytes)] else []) ++
  [(asc "count", .int e.facts.count.toInt64.toInt), (asc "first", .str e.facts.first.bytes),
    (asc "last", .str e.facts.last.bytes), (asc "verdict", .str e.facts.verdict.text)]

def Entity.opMembers (e : Entity) : List (Bytes × Scalar) := (asc "op", .str (asc "entity_set")) :: e.members

/-- The calls of `ps_pp_keyframe_json` up to the array. -/
def keyframeHead (m : Model) (host : Option CString) : List Call :=
  [.objectBegin, .member (asc "v") (.int 1), .member (asc "type") (.str (asc "keyframe")),
    .member (asc "epoch") (.str m.epoch.bytes), .member (asc "seq") (.int 0),
    .member (asc "host") (.str (argText host)), .keyObjectBegin (asc "subject"),
    .member (asc "mode") (.str (if m.subject.mode = .byPid then asc "pid" else asc "exe")),
    .member (asc "pid") (.int m.subject.pid.toInt), .member (asc "exe") (.str m.subject.exe.bytes),
    .member (asc "uid") (.int m.subject.uid.toInt), .member (asc "cgroup") (.str m.subject.cgroup.bytes),
    .member (asc "mac_label") (.str m.subject.macLabel.bytes), .objectEnd, .keyObjectBegin (asc "rates"),
    .member (asc "open_s") (.int m.rates.openS.toInt), .member (asc "connect_s") (.int m.rates.connectS.toInt),
    .member (asc "exec_s") (.int m.rates.execS.toInt), .objectEnd]

/-- The calls of `ps_pp_keyframe_json`. -/
def keyframeCalls (m : Model) (host : Option CString) : List Call :=
  keyframeHead m host ++ .arrayBegin (asc "entities") ::
    ((m.ent.list.map Entity.members).flatMap objectCalls ++ [.arrayEnd, .objectEnd])

/-- The calls of `ps_pp_delta_json` up to the array; `seq` is already the new one. -/
def deltaHead (m : Model) : List Call :=
  [.objectBegin, .member (asc "v") (.int 1), .member (asc "type") (.str (asc "delta")),
    .member (asc "epoch") (.str m.epoch.bytes), .member (asc "seq") (.int m.seq.toInt64.toInt)]

def deltaCalls (m : Model) : List Call :=
  deltaHead m ++ .arrayBegin (asc "ops") ::
    (((m.ent.list.filter Entity.dirty).map Entity.opMembers).flatMap objectCalls ++ [.arrayEnd, .objectEnd])

/-- The size of `buf` in `ps_inspect_stream_render`. -/
def streamBuf : Nat := 2 ^ 20

/-- `ps_pp_delta_json`: the profile after it, and the line, if there is one. -/
def deltaJson (m : Model) : Model × Option Bytes :=
  if m.ent.list.any Entity.dirty then
    let m := { m with seq := m.seq + 1 }
    ({ m with ent := m.ent.clean }, PsJson.calls streamBuf (deltaCalls m))
  else (m, none)

/-- `ps_inspect_stream_render`: the stream and the profile after it, and the line that is printed. -/
def streamRender (started : Bool) (m : Model) (host : Option CString) : Bool × Model × Option Bytes :=
  if started then
    let (m, line) := deltaJson m
    (true, m, line)
  else (true, { m with ent := m.ent.clean, seq := 0 }, PsJson.calls streamBuf (keyframeCalls m host))

/-! ## Applying a line -/

/-- `verdict_of`. -/
def verdictOf (s : Bytes) : PpVerdict :=
  if s = asc "covered" then .covered
  else if s = asc "novel" then .novel
  else if s = asc "anomaly" then .anomaly
  else .na

/-- `kind_of`. -/
def kindOf (s : Bytes) : Kind :=
  if s = asc "file" then .file
  else if s = asc "dest" then .dest
  else .proc

/-- A field after `ps_json_extract_string`; if it fails, what it has written is in front of the old text. -/
def store {n : Nat} [NeZero n] (old : Field n) (x : Extracted) : Field n :=
  if x.ok then .cut x.str (nul_not_mem_cstr _)
  else .cut (cstr (x.out ++ old.bytes.drop x.out.length)) (nul_not_mem_cstr _)

/-- What `upsert` makes of the facts of an entity. -/
def readFacts (obj : Bytes) (old : Facts) : Facts where
  kind := if (jsonExtractString obj (asc "kind") 32).ok then kindOf (jsonExtractString obj (asc "kind") 32).str
    else old.kind
  value := store old.value (jsonExtractString obj (asc "value") 512)
  state := store emptyField (jsonExtractString obj (asc "state") 16)
  count := ((jsonExtractInt obj (asc "count")).map Int64.toUInt64).getD old.count
  first := store old.first (jsonExtractString obj (asc "first") 24)
  last := store old.last (jsonExtractString obj (asc "last") 24)
  verdict := if (jsonExtractString obj (asc "verdict") 32).ok then
      verdictOf (jsonExtractString obj (asc "verdict") 32).str
    else old.verdict

/-- The facts after the `memset`. -/
def Facts.zero : Facts := ⟨.file, emptyField, emptyField, 0, emptyField, emptyField, .covered⟩

/-- The facts of an id are read; a new entity is put behind the others, if there is room. -/
def Entities.setFacts (es : Entities) (id : Field 544) (read : Facts → Facts) : Entities :=
  match hfind : es.list.findIdx? (·.id = id) with
  | some i => es.modify i (fun e => { e with facts := read e.facts }) fun _ => rfl
  | none =>
    if hroom : es.list.length < ppMaxEnt then es.push ⟨id, read .zero, false, 0⟩ hroom (id_not_mem hfind)
    else es

/-- `upsert`. -/
def Entities.upsert (es : Entities) (obj : Bytes) : Entities :=
  if (jsonExtractString obj (asc "id") 544).ok = false then es
  else es.setFacts (Activity.extractField obj (asc "id")) (readFacts obj)

def upsertAll (es : Entities) (json name : Bytes) : Entities :=
  match bracketBehind name json with
  | none => es
  | some p => (objectsFrom 2048 json.length p).foldl Entities.upsert es

/-- `enum ps_pp_apply`. -/
inductive Apply where
  | ok
  | desync
  deriving DecidableEq, Repr

/-- `ps_pp_apply_json`. -/
def applyJson (m : Model) (json : Bytes) : Model × Apply :=
  let type := jsonExtractString json (asc "type") 16
  let epoch : Field 24 := Activity.extractField json (asc "epoch")
  let seq := ((jsonExtractInt json (asc "seq")).getD 0).toUInt64
  if type.ok = false then (m, .desync)
  else if type.str = asc "keyframe" then
    ({ m with
        epoch
        seq := 0
        subject := { m.subject with exe := store m.subject.exe (jsonExtractString json (asc "exe") 256) }
        ent := upsertAll .empty json (asc "entities") }, .ok)
  else if epoch ≠ m.epoch then (m, .desync)
  else if seq ≠ m.seq + 1 then (m, .desync)
  else ({ m with seq, ent := upsertAll m.ent json (asc "ops") }, .ok)

/-! ## Reading an entity back -/

structure Tells (cs : List Call) (e : Entity) : Prop where
  id : Gives cs (asc "id") (.str e.id.bytes)
  kind : Gives cs (asc "kind") (.str e.facts.kind.text)
  value : Gives cs (asc "value") (.str e.facts.value.bytes)
  state : Gives cs (asc "state") (.str e.facts.state.bytes) ∨
    e.facts.state = emptyField ∧ ∃ cs', cs = cs' ++ [.objectEnd] ∧ lacks (asc "state") cs' = true ∧
      plainKeys cs' = true
  count : Gives cs (asc "count") (.int e.facts.count.toInt64.toInt)
  first : Gives cs (asc "first") (.str e.facts.first.bytes)
  last : Gives cs (asc "last") (.str e.facts.last.bytes)
  verdict : Gives cs (asc "verdict") (.str e.facts.verdict.text)

theorem state_empty {e : Entity} (h : ¬ e.facts.state.bytes ≠ []) : e.facts.state = emptyField :=
  Field.ext (not_not.mp h)

theorem tells_members (e : Entity) : Tells (objectCalls e.members) e := by
  unfold Entity.members
  split
  · exact ⟨.mk rfl rfl, .mk rfl rfl, .mk rfl rfl, .inl (.mk rfl rfl), .mk rfl rfl, .mk rfl rfl, .mk rfl rfl,
      .mk rfl rfl⟩
  · rename_i hstate
    exact ⟨.mk rfl rfl, .mk rfl rfl, .mk rfl rfl, .inr ⟨state_empty hstate, _ :: _, rfl, rfl, rfl⟩, .mk rfl rfl,
      .mk rfl rfl, .mk rfl rfl, .mk rfl rfl⟩

theorem tells_opMembers (e : Entity) : Tells (objectCalls e.opMembers) e := by
  unfold Entity.opMembers Entity.members
  split
  · exact ⟨.mk rfl rfl, .mk rfl rfl, .mk rfl rfl, .inl (.mk rfl rfl), .mk rfl rfl, .mk rfl rfl, .mk rfl rfl,
      .mk rfl rfl⟩
  · rename_i hstate
    exact ⟨.mk rfl rfl, .mk rfl rfl, .mk rfl rfl, .inr ⟨state_empty hstate, _ :: _, rfl, rfl, rfl⟩, .mk rfl rfl,
      .mk rfl rfl, .mk rfl rfl, .mk rfl rfl⟩

theorem store_field {cs : List Call} {n : Nat} [NeZero n] {k : Bytes} {f : Field n}
    (h : Gives cs k (.str f.bytes)) (old : Field n) :
    store old (jsonExtractString (callsText false cs) k n) = f := by
  rw [Activity.extractString_field h]
  exact Activity.cut_field rfl

/-- A word is read back. -/
theorem extract_word {cs : List Call} {k w : Bytes} (h : Gives cs k (.str w)) (hw : (0 : UInt8) ∉ w) {n : Nat}
    (hfits : w.length < n) : jsonExtractString (callsText false cs) k n = ⟨w, true⟩ :=
  have : NeZero n := ⟨Nat.ne_zero_of_lt hfits⟩
  Activity.extractString_field (f := ⟨w, hfits, hw⟩) h

theorem kind_text_lt (k : Kind) : k.text.length < 32 ∧ (0 : UInt8) ∉ k.text := by cases k <;> decide

theorem kindOf_text (k : Kind) : kindOf k.text = k := by cases k <;> decide

theorem verdict_text_lt (v : PpVerdict) : v.text.length < 32 ∧ (0 : UInt8) ∉ v.text := by cases v <;> decide

theorem verdictOf_text (v : PpVerdict) : verdictOf v.text = v := by cases v <;> decide

/-- What is told of an entity is read back, whatever was known before. -/
theorem readFacts_tells {cs : List Call} {e : Entity} (h : Tells cs e) (old : Facts) :
    readFacts (callsText false cs) old = e.facts := by
  have hkind := extract_word h.kind (kind_text_lt _).2 (kind_text_lt _).1
  have hverdict := extract_word h.verdict (verdict_text_lt _).2 (verdict_text_lt _).1
  have hstate : store emptyField (jsonExtractString (callsText false cs) (asc "state") 16) = e.facts.state := by
    rcases h.state with hfind | ⟨hnone, cs', rfl, hlacks, hplain⟩
    · exact store_field hfind emptyField
    · rw [extractString_absent (by decide) hplain hlacks, hnone]
      rfl
  have hcount : (jsonExtractInt (callsText false cs) (asc "count")).map Int64.toUInt64 = some e.facts.count := by
    rw [extractInt_calls h.count, Option.map_some, Int64.ofInt_toInt, UInt64.toUInt64_toInt64]
  unfold readFacts
  rw [hkind, hverdict, hstate, hcount, store_field h.value, store_field h.first, store_field h.last]
  show (⟨kindOf (cstr _), _, _, _, _, _, verdictOf (cstr _)⟩ : Facts) = _
  rw [cstr_eq_self_iff.mpr (kind_text_lt _).2, cstr_eq_self_iff.mpr (verdict_text_lt _).2, kindOf_text,
    verdictOf_text, Option.getD_some]

/-! ## What a line does to a copy -/

/-- Setting the facts of an id, in the terms of a replica. -/
theorem view_setFacts (es : Entities) (id : Field 544) {read : Facts → Facts} {facts : Facts}
    (hread : ∀ old, read old = facts) : (es.setFacts id read).view = Lib.upsert ppMaxEnt es.view id facts := by
  have hupsert : ∀ (t : List Entity) (n : Nat), Lib.upsert n (t.map fun e => (e.id, e.facts)) id facts =
      (t.findIdx? (·.id = id)).elim
        ((t.map fun e => (e.id, e.facts)) ++ if t.length < n then [(id, facts)] else [])
        fun i => (t.modify i fun e => { e with facts }).map fun e => (e.id, e.facts) := by
    intro t
    induction t with
    | nil => exact fun n => rfl
    | cons e t ih =>
      intro n
      rw [map_cons, Lib.upsert, findIdx?_cons]
      by_cases hid : e.id = id
      · rw [if_pos hid, if_pos (by simpa using hid), Option.elim_some, modify_zero_cons, map_cons, hid]
      · rw [if_neg hid, if_neg (by simpa using hid), ih]
        cases hfind : t.findIdx? (·.id = id) with
        | none =>
          have hlen : t.length < n - 1 ↔ (e :: t).length < n := by
            rw [length_cons]
            omega
          simp only [Option.map_none, Option.elim_none, cons_append, hlen]
        | some i => rfl
  have hright := hupsert es.list ppMaxEnt
  unfold Entities.view
  rw [hright]
  unfold Entities.setFacts
  split
  · rename_i i hfind
    rw [hfind]
    simp only [hread]
    rfl
  · rename_i hfind
    simp only [hfind, Option.elim_none]
    by_cases hroom : es.list.length < ppMaxEnt
    · rw [dif_pos hroom, if_pos hroom, ← hread .zero]
      exact map_append
    · rw [dif_neg hroom, if_neg hroom, append_nil]

/-- An object that tells of an entity sets its facts. -/
theorem upsert_tells {cs : List Call} {e : Entity} (h : Tells cs e) (es : Entities) :
    (es.upsert (callsText false cs)).view = Lib.upsert ppMaxEnt es.view e.id e.facts := by
  unfold Entities.upsert
  rw [Activity.extractString_field h.id, Activity.extractField_calls h.id]
  exact view_setFacts es e.id (readFacts_tells h)

/-- Objects that tell of entities, one after the other. -/
theorem foldl_upsert_tells {members : Entity → List (Bytes × Scalar)}
    (h : ∀ e, Tells (objectCalls (members e)) e) (ts : List Entity) (es : Entities) :
    (((ts.map members).map flatText).foldl Entities.upsert es).view =
      ts.foldl (fun t e => Lib.upsert ppMaxEnt t e.id e.facts) es.view := by
  induction ts generalizing es with
  | nil => rfl
  | cons t ts ih =>
    rw [map_cons, map_cons, foldl_cons, foldl_cons, ih]
    congr 1
    exact upsert_tells (h t) es

/-- The entities of an array that is found and whose objects fit the reader's buffer. -/
theorem upsertAll_calls {name : Bytes} (hname : Name name) (hbracket : (91 : UInt8) ∉ name) {cs : List Call}
    (hplain : plainKeys cs = true) (hlacks : lacks name cs = true) (hclear : Clear name cs)
    {members : Entity → List (Bytes × Scalar)} (htells : ∀ e, Tells (objectCalls (members e)) e)
    {ts : List Entity} (hfits : ∀ e ∈ ts, (flatText (members e)).length < 2048) (post : List Call)
    (es : Entities) :
    (upsertAll es (callsText false (cs ++ .arrayBegin name ::
        ((ts.map members).flatMap objectCalls ++ .arrayEnd :: post))) name).view =
      ts.foldl (fun t e => Lib.upsert ppMaxEnt t e.id e.facts) es.view := by
  have hlen : ts.length ≤ (callsText false (cs ++ .arrayBegin name ::
      ((ts.map members).flatMap objectCalls ++ .arrayEnd :: post))).length := by
    have hobjects := length_objects_le (ts.map members) false (.arrayEnd :: post)
    rw [length_map] at hobjects
    rw [callsText_append, length_append, callsText, length_append]
    exact Nat.le_trans hobjects (Nat.le_trans (Nat.le_add_left _ _) (Nat.le_add_left _ _))
  have hall : ((ts.map members).map flatText).takeWhile (·.length < 2048) = (ts.map members).map flatText := by
    rw [takeWhile_eq_self_iff]
    intro o ho
    rw [map_map] at ho
    obtain ⟨e, he, rfl⟩ := mem_map.mp ho
    exact decide_eq_true (hfits e he)
  unfold upsertAll
  rw [bracket_array hname hbracket hplain hlacks hclear]
  dsimp only
  show (List.foldl _ es (objectsFrom 2048 _ ([91] ++ _))).view = _
  rw [objectsFrom_skip (by decide), objectsFrom_calls,
    take_of_length_le (by rw [length_map, length_map]; exact hlen), hall]
  exact foldl_upsert_tells htells ts es

end Packetsonde.Inspect
