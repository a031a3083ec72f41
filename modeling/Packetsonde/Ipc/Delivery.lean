import Packetsonde.Ipc.Server

/-!
# Packetsonde — frames of a client that closes (`ps_ipc_server_poll`)

A client may write its frames and close at once; `poll` then reports `POLLIN` together with `POLLHUP`,
and the loop looks at `POLLHUP` first. The frames in the socket are gone with the slot.

`Tracked` follows one plaintext connection through a run: what it has sent is what its reader was fed
and what still waits, and the calls of `on_frame` are those of a reader fed the former. It survives every
operation on the slots except a drop while bytes wait (`Calm`). So without such a drop each frame is
delivered once, in order, and before the slot is free again (`frames_delivered_before_drop`).
-/

namespace Packetsonde.Ipc

open Packetsonde.Lib
open List

namespace Server

/-! ## Runs -/

/-- What peers and the agent do. A closed peer writes no more. -/
inductive Event where
  | send (c : Conn) (bs : Bytes)
  | record (c : Conn) (bs : Bytes)
  | close (c : Conn)
  | poll (p : Poll)
  | broadcast (fails : Fin maxClients → Bool)

def step (malloc : Nat → Bool) (srv : Server) : Event → Server
  | .send c bs =>
    let sock := srv.socks c
    if sock.closed then srv
    else srv.setSock c { sock with sent := sock.sent ++ bs, unread := sock.unread ++ bs }
  | .record c bs =>
    let sock := srv.socks c
    if sock.closed then srv else srv.setSock c { sock with records := sock.records ++ [bs] }
  | .close c => srv.setSock c { srv.socks c with closed := true }
  | .poll p => (srv.poll malloc p).1
  | .broadcast fails => srv.broadcast fails

def run (malloc : Nat → Bool) (tls : Bool) (evs : List Event) : Server :=
  evs.foldl (step malloc) (init tls)

/-- Slot `i` is the connection's. -/
def Holds (srv : Server) (c : Conn) (i : Fin maxClients) : Prop := (srv.client i).conn = some c

instance (srv : Server) (c : Conn) (i : Fin maxClients) : Decidable (srv.Holds c i) :=
  inferInstanceAs (Decidable (_ = _))

def Finished (srv : Server) (c : Conn) : Prop :=
  (srv.socks c).closed = true ∧ (srv.socks c).unread = []

/-- The call finds the client of the slot hung up or broken, or fails to write to it. -/
def Poll.Drops (p : Poll) (i : Fin maxClients) : Prop :=
  p.hangup i = true ∨ p.io i = .failed ∨ ∃ k, p.fails k i = true

/-- The step does not find the connection hung up or broken before it is finished. -/
def Calm (c : Conn) (srv : Server) : Event → Prop
  | .poll p =>
    p.result = .ready →
      (∀ i, srv.Holds c i → p.Drops i → srv.Finished c) ∧
        ∀ i, (srv.client i).conn = none → ∀ k, p.fails k i = false
  | .broadcast fails => ∀ i, srv.Holds c i → fails i = true → srv.Finished c
  | _ => True

def CalmRun (malloc : Nat → Bool) (c : Conn) : Server → List Event → Prop
  | _, [] => True
  | srv, ev :: evs => Calm c srv ev ∧ CalmRun malloc c (step malloc srv ev) evs

/-! ## One connection -/

/-- The reader has no complaint about what was sent. -/
def Accepted (malloc : Nat → Bool) (srv : Server) (c : Conn) : Prop :=
  (({} : FrameReader).feedAll malloc (srv.socks c).sent).ok = true

/-- `flight` are the bytes that were read and not yet fed to the reader; `D` are the slots that may be
dropped. -/
structure Tracked (malloc : Nat → Bool) (D : Fin maxClients → Prop) (c : Conn) (flight : Bytes)
    (srv : Server) : Prop where
  plain : c.tcp = true → srv.tls = false
  unique : ∀ i j, srv.Holds c i → srv.Holds c j → i = j
  known : ∀ i, srv.Holds c i → c ∈ srv.placed
  fresh : c ∉ srv.placed → srv.framesOf c = [] ∧ (srv.socks c).unread = (srv.socks c).sent
  live : ∀ i, srv.Holds c i → (srv.client i).ssl = none ∧
    ∃ consumed, (srv.socks c).sent = consumed ++ (flight ++ (srv.socks c).unread) ∧
      ({} : FrameReader).feedAll malloc consumed = ⟨(srv.client i).reader, srv.framesOf c, true⟩
  gone : c ∈ srv.placed → (∀ i, ¬ srv.Holds c i) → srv.Accepted malloc c →
    (srv.socks c).closed = true ∧
      srv.framesOf c = (({} : FrameReader).feedAll malloc (srv.socks c).sent).frames
  guard : ∀ i, srv.Holds c i → D i → srv.Finished c ∧ flight = []

section Operations

variable {malloc : Nat → Bool} {D : Fin maxClients → Prop} {c d : Conn} {flight flight' bs : Bytes}
  {srv srv' : Server} {i : Fin maxClients} {fails : Nat → Fin maxClients → Bool}
  {io : Io} {p : Poll} {ssl : Option Bytes} {id : Nat}

theorem not_holds_of_free (h : (srv.client i).conn = none) : ¬ srv.Holds c i := by
  rw [Holds, h]
  exact nofun

theorem framesOf_concat (conn : Option Conn) (d : Delivered) :
    ({ srv with frames := srv.frames ++ [(conn, d)] } : Server).framesOf c =
      srv.framesOf c ++ if conn = some c then [d] else [] := by
  unfold framesOf
  rw [ofSlot_append]
  congr 1
  exact ofSlot_tagged conn [d]

theorem not_holds_of_feeds (h : Feeds i srv srv') (hi : ¬ srv.Holds c i) : ¬ srv'.Holds c i := by
  rcases h.own with hnone | ⟨hconn, -⟩
  · exact not_holds_of_free hnone
  · exact fun hi' => hi (hconn.symm.trans hi')

theorem client_setReader (srv : Server) (i : Fin maxClients) (reader : FrameReader) :
    (srv.setReader i reader).client i = { srv.client i with reader := reader } := by
  unfold setReader
  rw [client_setClient, if_pos rfl]

theorem holds_setReader (reader : FrameReader) (j : Fin maxClients) :
    (srv.setReader i reader).Holds c j ↔ srv.Holds c j := by
  unfold Holds setReader
  rw [client_setClient]
  split
  · rename_i hij
    rw [hij]
  · rfl

/-- A write that does not fail leaves the slot alone. -/
theorem holds_broadcast {fails : Fin maxClients → Bool} (hi : srv.Holds c i) (hfails : fails i = false) :
    (srv.broadcast fails).Holds c i := by
  unfold Holds
  rcases client_broadcast srv fails i with hsame | ⟨hfail, -⟩
  · rw [hsame]
    exact hi
  · rw [hfails] at hfail
    cases hfail

/-- What `place` does: nothing, or a free slot is taken. -/
theorem place_cases (srv : Server) (c : Conn) (ssl : Option Bytes) :
    srv.place c ssl = srv ∨
      ∃ i, (srv.client i).conn = none ∧ c ∉ srv.placed ∧ srv.place c ssl = srv.occupy i c ssl := by
  unfold Server.place
  split
  · exact .inl rfl
  rename_i hnew
  split
  · exact .inl rfl
  · rename_i i hfind
    have hfree := @List.find?_some _ (fun i => (srv.client i).conn.isNone) _ _ hfind
    exact .inr ⟨i, Option.isNone_iff_eq_none.mp hfree, hnew, rfl⟩

section

variable (h : Tracked malloc D c flight srv)

include h

/-- An operation on other slots, or one that drops the connection when it is finished. -/
theorem Tracked.fade (htls : srv'.tls = srv.tls)
    (hsock : srv'.socks c = srv.socks c) (hplaced : c ∈ srv'.placed ↔ c ∈ srv.placed)
    (hframes : srv'.framesOf c = srv.framesOf c)
    (hheld : ∀ i, srv.Holds c i → srv'.client i = srv.client i ∨
      (srv'.client i).conn = none ∧ (srv.Accepted malloc c → srv.Finished c ∧ flight = []))
    (hfree : ∀ i, srv'.Holds c i → srv.Holds c i) : Tracked malloc D c flight srv' := by
  have hsame : ∀ i, srv'.Holds c i → srv'.client i = srv.client i := by
    intro i hi
    rcases hheld i (hfree i hi) with hsame | ⟨hnone, -⟩
    · exact hsame
    · exact absurd hi (not_holds_of_free hnone)
  constructor
  case plain =>
    rw [htls]
    exact h.plain
  case unique => exact fun i j hi hj => h.unique i j (hfree i hi) (hfree j hj)
  case known => exact fun i hi => hplaced.mpr (h.known i (hfree i hi))
  case fresh =>
    rw [hplaced, hframes, hsock]
    exact h.fresh
  case live =>
    intro i hi
    rw [hsame i hi, hsock, hframes]
    exact h.live i (hfree i hi)
  case guard =>
    intro i hi hD
    unfold Finished
    rw [hsock]
    exact h.guard i (hfree i hi) hD
  case gone =>
    intro hmem hnone hok
    unfold Accepted at hok
    rw [hsock] at hok
    rw [hsock, hframes]
    by_cases hbefore : ∀ i, ¬ srv.Holds c i
    · exact h.gone (hplaced.mp hmem) hbefore hok
    · -- it was dropped just now
      obtain ⟨i, hi⟩ := not_forall_not.mp hbefore
      rcases hheld i hi with hsame | ⟨-, hfinished⟩
      · refine absurd ?_ (hnone i)
        unfold Holds
        rw [hsame]
        exact hi
      · obtain ⟨⟨hclosed, hunread⟩, hflight⟩ := hfinished hok
        obtain ⟨-, consumed, hsent, hfed⟩ := h.live i hi
        rw [hunread, hflight, append_nil, append_nil] at hsent
        rw [hsent, hfed]
        exact ⟨hclosed, rfl⟩

theorem Tracked.broadcast {fails : Fin maxClients → Bool}
    (hfails : ∀ i, fails i = true → D i) : Tracked malloc D c flight (srv.broadcast fails) := by
  obtain ⟨hworld, hframes⟩ := broadcast_world srv fails
  apply h.fade hworld.tls (by rw [hworld.socks]) (by rw [hworld.placed])
  · unfold framesOf
    rw [hframes]
  · intro i hi
    rcases client_broadcast srv fails i with hsame | ⟨hfail, hdropped⟩
    · exact .inl hsame
    · rw [hdropped]
      exact .inr ⟨rfl, fun _ => h.guard i hi (hfails i hfail)⟩
  · intro i hi
    rcases fades_broadcast srv fails i with hsame | hnone
    · unfold Holds at hi
      rw [hsame] at hi
      exact hi
    · exact absurd hi (not_holds_of_free hnone)

/-- Another slot's client is changed, and the slot does not become the connection's. -/
theorem Tracked.setOther (hi : ¬ srv.Holds c i) {cl : Client}
    (hcl : cl.conn ≠ some c) : Tracked malloc D c flight (srv.setClient i cl) := by
  refine h.fade rfl rfl Iff.rfl rfl (fun j hj => .inl ?_) (fun j hj => ?_)
  · have hij : i ≠ j := by
      rintro rfl
      exact hi hj
    rw [client_setClient, if_neg hij]
  · unfold Holds at hj
    rw [client_setClient] at hj
    split at hj
    · exact absurd hj hcl
    · exact hj

/-- A slot is dropped: another's, or the connection's own when it is finished. -/
theorem Tracked.drop
    (hi : srv.Holds c i → srv.Finished c ∧ flight = []) :
    Tracked malloc D c flight (srv.dropClient i) := by
  refine h.fade rfl rfl Iff.rfl rfl (fun j hj => ?_) (fun j hj => ?_)
  · rw [client_dropClient]
    split
    · rename_i hij
      subst hij
      exact .inr ⟨rfl, fun _ => hi hj⟩
    · exact .inl rfl
  · unfold Holds at hj
    rw [client_dropClient] at hj
    split at hj
    · cases hj
    · exact hj

theorem Tracked.sockOther (hd : d ≠ c) (sock : Sock) :
    Tracked malloc D c flight (srv.setSock d sock) :=
  h.fade rfl (if_neg hd.symm) Iff.rfl rfl (fun _ _ => .inl rfl) (fun _ hj => hj)

/-- A read for another slot. -/
theorem Tracked.readOther {res : ReadResult} (hi : ¬ srv.Holds c i) (hread : ReadCase srv i io srv' res) :
    Tracked malloc D c flight srv' := by
  have hother : ∀ d, (srv.client i).conn = some d → d ≠ c := by
    rintro d hd rfl
    exact hi hd
  cases hread with
  | wouldBlock _ => exact h
  | eof _ => exact h
  | failed _ => exact h
  | plain hconn _ _ => exact h.sockOther (hother _ hconn) _
  | buffered _ _ _ => exact h.setOther hi hi
  | record hconn _ _ => exact (h.sockOther (hother _ hconn) _).setOther hi hi

/-- Another connection gets a slot. -/
theorem Tracked.occupyOther
    (hd : d ≠ c) (hfree : (srv.client i).conn = none) :
    Tracked malloc D c flight (srv.occupy i d ssl) := by
  refine h.fade rfl rfl ?_ rfl (fun j hj => .inl ?_) (fun j hj => ?_)
  · show c ∈ d :: srv.placed ↔ _
    rw [mem_cons, or_iff_right hd.symm]
  · rw [client_occupy, if_neg]
    rintro rfl
    rw [Holds, hfree] at hj
    cases hj
  · rw [Holds, client_occupy] at hj
    split at hj
    · exact absurd (Option.some.inj hj) hd
    · exact hj

/-- The slots that may be dropped matter only while the call lasts. -/
theorem Tracked.guarded {D' : Fin maxClients → Prop}
    (hguard : ∀ i, srv.Holds c i → D' i → srv.Finished c ∧ flight = []) :
    Tracked malloc D' c flight srv :=
  { h with guard := hguard }

/-- The connection's own slot goes on. -/
theorem Tracked.move (hi : srv.Holds c i)
    (hD : ¬ D i) (htls : srv'.tls = srv.tls) (hsent : (srv'.socks c).sent = (srv.socks c).sent)
    (hplaced : srv'.placed = srv.placed) (hholds : ∀ j, srv'.Holds c j ↔ srv.Holds c j)
    (hssl : (srv'.client i).ssl = (srv.client i).ssl) {consumed : Bytes}
    (hsplit : (srv.socks c).sent = consumed ++ (flight' ++ (srv'.socks c).unread))
    (hfed : ({} : FrameReader).feedAll malloc consumed =
      ⟨(srv'.client i).reader, srv'.framesOf c, true⟩) : Tracked malloc D c flight' srv' := by
  have hown : ∀ j, srv'.Holds c j → j = i := fun j hj => h.unique j i ((hholds j).mp hj) hi
  constructor
  case plain =>
    rw [htls]
    exact h.plain
  case unique =>
    intro j k hj hk
    rw [hown j hj, hown k hk]
  case known =>
    intro j hj
    rw [hplaced]
    exact h.known j ((hholds j).mp hj)
  case fresh =>
    intro hfresh
    rw [hplaced] at hfresh
    exact absurd (h.known i hi) hfresh
  case live =>
    intro j hj
    obtain rfl := hown j hj
    rw [hssl, hsent]
    exact ⟨(h.live j hi).1, consumed, hsplit, hfed⟩
  case gone => exact fun _ hnone _ => absurd ((hholds i).mpr hi) (hnone i)
  case guard =>
    intro j hj hDj
    obtain rfl := hown j hj
    exact absurd hDj hD

/-- The reader complained, and the slot is dropped. -/
theorem Tracked.lost (hi : srv.Holds c i)
    (hbad : ¬ srv.Accepted malloc c) (htls : srv'.tls = srv.tls)
    (hsock : srv'.socks c = srv.socks c) (hplaced : srv'.placed = srv.placed)
    (hnone : ∀ j, ¬ srv'.Holds c j) : Tracked malloc D c flight' srv' := by
  constructor
  case plain =>
    rw [htls]
    exact h.plain
  case fresh =>
    intro hfresh
    rw [hplaced] at hfresh
    exact absurd (h.known i hi) hfresh
  case gone =>
    intro _ _ hok
    unfold Accepted at hok
    rw [hsock] at hok
    exact absurd hok hbad
  case unique => exact fun j _ hj _ => absurd hj (hnone j)
  case known => exact fun j hj => absurd hj (hnone j)
  case live => exact fun j hj => absurd hj (hnone j)
  case guard => exact fun j hj _ => absurd hj (hnone j)

variable (hfails : ∀ k i, fails k i = true → D i)

include hfails

/-- `on_frame` for another slot. -/
theorem Tracked.onFrameOther (hi : ¬ srv.Holds c i) :
    Tracked malloc D c flight (srv.onFrame i fails) := by
  unfold onFrame
  apply Tracked.broadcast _ (hfails _)
  refine h.fade rfl rfl Iff.rfl ?_ (fun _ _ => .inl rfl) (fun _ hj => hj)
  rw [framesOf_concat, if_neg (show ¬ (srv.client i).conn = some c from hi), append_nil]

theorem Tracked.feedOther (hi : ¬ srv.Holds c i) :
    Tracked malloc D c flight (feedBytes malloc fails i srv bs).1 := by
  induction bs generalizing srv with
  | nil => exact h
  | cons byte bs ih =>
    rw [feedBytes]
    rcases (srv.client i).reader.feed malloc byte with ⟨reader, fed⟩
    have hset : Tracked malloc D c flight (srv.setReader i reader) := h.setOther hi hi
    have hother := not_holds_of_feeds (feeds_setReader i srv reader) hi
    cases fed with
    | more => exact ih hset hother
    | ready =>
      exact ih (hset.onFrameOther hfails hother) (not_holds_of_feeds (feeds_onFrame i _ fails) hother)
    | error => exact hset.drop fun hholds => absurd hholds hother

omit h in
/-- The bytes in flight for the connection's own reader. Induction on them: each goes from `flight` to
what was fed. -/
theorem Tracked.feedOwn (h : Tracked malloc D c bs srv) (hi : srv.Holds c i)
    (hD : ¬ D i) :
    Tracked malloc D c [] (feedBytes malloc fails i srv bs).1 := by
  induction bs generalizing srv with
  | nil => exact h
  | cons byte bs ih =>
    obtain ⟨-, consumed, hsent, hfed⟩ := h.live i hi
    have hsplit : (srv.socks c).sent = (consumed ++ [byte]) ++ (bs ++ (srv.socks c).unread) := by
      rw [hsent, append_assoc]
      rfl
    rw [feedBytes]
    rcases hfeed : (srv.client i).reader.feed malloc byte with ⟨reader, fed⟩
    have hnext := feedAll_concat hfed hfeed
    have hclient := client_setReader srv i reader
    have hholds := @holds_setReader c srv i reader
    cases fed with
    | error =>
      refine h.lost hi (fun hok => ?_) rfl rfl rfl (fun j hj => ?_)
      · unfold Accepted at hok
        rw [hsplit] at hok
        have hbad := ok_of_append hok
        rw [hnext] at hbad
        cases hbad
      · have hj' : ((srv.setReader i reader).dropClient i).Holds c j := hj
        rw [Holds, client_dropClient] at hj'
        split at hj'
        · cases hj'
        · rename_i hij
          exact hij (h.unique i j hi ((hholds j).mp hj'))
    | more =>
      rw [if_neg (by rintro ⟨⟩), append_nil] at hnext
      refine ih (h.move hi hD rfl rfl rfl hholds ?_ hsplit ?_) ((hholds i).mpr hi)
      · rw [hclient]
      · rw [hclient]
        exact hnext
    | ready =>
      rw [if_pos rfl] at hnext
      have hquiet : ∀ k, fails k i = false := by
        intro k
        rw [Bool.eq_false_iff]
        exact fun hfail => hD (hfails k i hfail)
      refine ih ?_ (holds_broadcast ((hholds i).mpr hi) (hquiet _))
      refine Tracked.broadcast ?_ (hfails _)
      refine h.move hi hD rfl rfl rfl hholds ?_ hsplit ?_
      · show ((srv.setReader i reader).client i).ssl = _
        rw [hclient]
      · rw [framesOf_concat, if_pos (show _ = some c from (hholds i).mpr hi)]
        show _ = Feeding.mk ((srv.setReader i reader).client i).reader _ true
        rw [hclient]
        exact hnext

end

section

variable (h : Tracked malloc D c [] srv)

include h

/-- A read for the connection's own slot: some of what waits is now in flight. -/
theorem Tracked.readOwn (hi : srv.Holds c i)
    (hread : ReadCase srv i io srv' (.bytes bs)) :
    ¬ D i ∧ srv'.Holds c i ∧ Tracked malloc D c bs srv' := by
  obtain ⟨hplain, consumed, hsent, hfed⟩ := h.live i hi
  cases hread with
  | buffered _ hssl _ =>
    rw [hplain] at hssl
    cases hssl
  | record _ hssl _ =>
    rw [hplain] at hssl
    cases hssl
  | @plain d size hd _ hsome =>
    obtain rfl := Option.some.inj (hd.symm.trans hi)
    have hD : ¬ D i := fun hD => hsome (h.guard i hi hD).1.2
    have hsock : (srv.setSock d { srv.socks d with unread := (srv.socks d).unread.drop size }).socks d =
        { srv.socks d with unread := (srv.socks d).unread.drop size } := if_pos rfl
    refine ⟨hD, hi, h.move hi hD rfl ?_ rfl (fun _ => Iff.rfl) rfl ?_ hfed⟩
    · rw [hsock]
    · rw [hsock, take_append_drop, hsent, nil_append]

/-- The connection gets a slot. -/
theorem Tracked.occupyOwn (hnew : c ∉ srv.placed) (hD : ¬ D i) :
    Tracked malloc D c [] (srv.occupy i c none) := by
  obtain ⟨hframes, hunread⟩ := h.fresh hnew
  have hown : ∀ j, (srv.occupy i c none).Holds c j → j = i := by
    intro j hj
    rw [Holds, client_occupy] at hj
    split at hj
    · rename_i hij
      exact hij.symm
    · exact absurd (h.known j hj) hnew
  constructor
  case plain => exact h.plain
  case unique =>
    intro j k hj hk
    rw [hown j hj, hown k hk]
  case known => exact fun _ _ => mem_cons_self
  case fresh => exact fun hfresh => absurd mem_cons_self hfresh
  case live =>
    intro j hj
    obtain rfl := hown j hj
    rw [client_occupy, if_pos rfl]
    refine ⟨rfl, [], hunread.symm, ?_⟩
    show _ = Feeding.mk _ (srv.framesOf c) true
    rw [hframes]
    rfl
  case gone =>
    intro _ hnone _
    refine absurd ?_ (hnone i)
    rw [Holds, client_occupy, if_pos rfl]
  case guard =>
    intro j hj hDj
    rw [hown j hj] at hDj
    exact absurd hDj hD

section

variable (hfails : ∀ k i, fails k i = true → D i)

include hfails

/-- A turn of the loop that drains a slot. -/
theorem Tracked.drainTurn
    (hio : io = .failed → D i) :
    Tracked malloc D c [] (Server.drainTurn malloc fails i io srv).1 := by
  have hread := clientRead_cases srv i io
  unfold Server.drainTurn
  rcases hres : srv.clientRead i io with ⟨srv', bs | _ | _ | _⟩ <;> rw [hres] at hread
  case bytes =>
    by_cases hi : srv.Holds c i
    · obtain ⟨hD, hi', hflight⟩ := h.readOwn hi hread
      exact hflight.feedOwn hfails hi' hD
    · have hi' : ¬ srv'.Holds c i := by
        unfold Holds
        rw [hread.conn]
        exact hi
      exact (h.readOther hi hread).feedOther hfails hi'
  case wouldBlock =>
    cases hread with
    | wouldBlock _ => exact h
  case eof =>
    cases hread with
    | eof hplain => exact h.drop fun hi => ⟨hplain c hi (h.live i hi).1, rfl⟩
  case failed =>
    cases hread with
    | failed hfailed =>
      refine h.drop fun hi => ?_
      rcases hfailed with hfailed | hnone
      · exact h.guard i hi (hio hfailed)
      · rw [Holds, hnone] at hi
        cases hi

theorem Tracked.drain {fuel : Nat}
    (hio : io = .failed → D i) :
    Tracked malloc D c [] (Server.drain malloc fails i io fuel srv) := by
  induction fuel generalizing srv with
  | zero => exact h.drainTurn hfails hio
  | succ fuel ih =>
    have hturn := h.drainTurn hfails hio
    rw [Server.drain]
    rcases hres : Server.drainTurn malloc fails i io srv with ⟨srv', again⟩
    rw [hres] at hturn
    cases again with
    | false => exact hturn
    | true => exact ih hturn

end

theorem Tracked.serve
    (hfails : ∀ k i, p.fails k i = true → D i) (hio : p.io i = .failed → D i)
    (hhangup : p.hangup i = true → D i) : Tracked malloc D c [] (Server.serve malloc p srv i) := by
  unfold Server.serve
  split
  · exact h
  split
  · rename_i hup
    exact h.drop fun hi => h.guard i hi (hhangup hup)
  split
  · exact h
  · exact h.drain hfails hio

theorem Tracked.serves {js : List (Fin maxClients)}
    (hfails : ∀ k i, p.fails k i = true → D i) (hio : ∀ i ∈ js, p.io i = .failed → D i)
    (hhangup : ∀ i ∈ js, p.hangup i = true → D i) :
    Tracked malloc D c [] (js.foldl (Server.serve malloc p) srv) := by
  induction js generalizing srv with
  | nil => exact h
  | cons j js ih =>
    obtain ⟨hioj, hio⟩ := forall_mem_cons.mp hio
    obtain ⟨hupj, hhangup⟩ := forall_mem_cons.mp hhangup
    exact ih (h.serve hfails hioj hupj) hio hhangup

variable (hD : ∀ i, (srv.client i).conn = none → ¬ D i)

include hD

theorem Tracked.place
    (hssl : d = c → ssl = none) :
    Tracked malloc D c [] (srv.place d ssl) ∧
      ∀ i, ((srv.place d ssl).client i).conn = none → ¬ D i := by
  rcases place_cases srv d ssl with hsame | ⟨i, hfree, hnew, hoccupied⟩
  · rw [hsame]
    exact ⟨h, hD⟩
  · rw [hoccupied]
    constructor
    · by_cases hdc : d = c
      · obtain rfl := hssl hdc
        subst hdc
        exact h.occupyOwn hnew (hD i hfree)
      · exact h.occupyOther hdc hfree
    · intro j hj
      rw [client_occupy] at hj
      split at hj
      · cases hj
      · exact hD j hj

theorem Tracked.acceptClient :
    Tracked malloc D c [] (srv.acceptClient id) ∧
      ∀ i, ((srv.acceptClient id).client i).conn = none → ¬ D i := by
  unfold Server.acceptClient
  split
  · exact ⟨h, hD⟩
  · exact h.place hD fun _ => rfl

theorem Tracked.acceptTcp {handshake : Handshake} :
    Tracked malloc D c [] (srv.acceptTcp id handshake) := by
  unfold Server.acceptTcp
  split
  · exact h
  split
  · rename_i htls
    cases handshake with
    | failed => exact h
    | unauthorized => exact h
    | authorized pending =>
      -- a plaintext connection does not come in this way
      refine (h.place hD ?_).1
      rintro rfl
      rw [h.plain rfl] at htls
      cases htls
  · exact (h.place hD fun _ => rfl).1

theorem Tracked.accepts : Tracked malloc D c [] (srv.accepts p) := by
  have hunix : Tracked malloc D c [] (p.unix.elim srv srv.acceptClient) ∧
      ∀ i, ((p.unix.elim srv srv.acceptClient).client i).conn = none → ¬ D i := by
    cases p.unix with
    | none => exact ⟨h, hD⟩
    | some id => exact h.acceptClient hD
  unfold Server.accepts
  cases p.tcp with
  | none => exact hunix.1
  | some tcp => exact hunix.1.acceptTcp hunix.2

end

variable (h : Tracked malloc (fun _ => False) c [] srv)

include h

theorem Tracked.poll
    (hcalm : Calm c srv (.poll p)) : Tracked malloc (fun _ => False) c [] (srv.poll malloc p).1 := by
  unfold Server.poll
  cases hres : p.result with
  | failed => exact h
  | interrupted => exact h
  | timeout => exact h
  | ready =>
    obtain ⟨hdrops, hfree⟩ := hcalm hres
    have hstart : Tracked malloc (fun i => (srv.client i).conn ≠ none ∧ p.Drops i) c [] srv :=
      h.guarded fun i hi hD => ⟨hdrops i hi hD.2, rfl⟩
    have haccepted := @Tracked.accepts _ _ _ _ p hstart fun i hnone hD => hD.1 hnone
    have hused : ∀ i ∈ srv.slotMap, (srv.client i).conn ≠ none := fun i hi =>
      Option.isSome_iff_ne_none.mp (mem_filter.mp hi).2
    have hfails : ∀ k i, p.fails k i = true → (srv.client i).conn ≠ none ∧ p.Drops i := by
      refine fun k i hfail => ⟨fun hnone => ?_, .inr (.inr ⟨k, hfail⟩)⟩
      rw [hfree i hnone k] at hfail
      cases hfail
    have hserved := haccepted.serves hfails
      (fun i hi hio => ⟨hused i hi, .inr (.inl hio)⟩) (fun i hi hup => ⟨hused i hi, .inl hup⟩)
    exact hserved.guarded fun _ _ hfalse => hfalse.elim

/-- The peer writes, or closes: the histories grow with the socket. -/
theorem Tracked.setSock {more : Bytes} {sock : Sock}
    (hsent : sock.sent = (srv.socks c).sent ++ more)
    (hunread : sock.unread = (srv.socks c).unread ++ more)
    (hclosed : (srv.socks c).closed = true → sock.closed = true ∧ more = []) :
    Tracked malloc (fun _ => False) c [] (srv.setSock c sock) := by
  have hsock := @socks_setSock_self srv c sock
  constructor
  case plain => exact h.plain
  case unique => exact h.unique
  case known => exact h.known
  case fresh =>
    intro hfresh
    obtain ⟨hframes, hall⟩ := h.fresh hfresh
    rw [hsock, hsent, hunread, hall]
    exact ⟨hframes, rfl⟩
  case live =>
    intro i hi
    obtain ⟨hssl, consumed, hsplit, hfed⟩ := h.live i hi
    refine ⟨hssl, consumed, ?_, hfed⟩
    rw [hsock, hsent, hunread, hsplit, append_assoc, append_assoc]
  case gone =>
    intro hmem hnone hok
    unfold Accepted at hok
    rw [hsock, hsent] at hok
    obtain ⟨hbefore, hframes⟩ := h.gone hmem hnone (ok_of_append hok)
    obtain ⟨hafter, hmore⟩ := hclosed hbefore
    rw [hsock, hsent, hmore, append_nil]
    exact ⟨hafter, hframes⟩
  case guard => exact fun _ _ hfalse => hfalse.elim

theorem Tracked.step {ev : Event}
    (hcalm : Calm c srv ev) : Tracked malloc (fun _ => False) c [] (Server.step malloc srv ev) := by
  cases ev with
  | poll p => exact h.poll hcalm
  | broadcast fails =>
    have hguarded : Tracked malloc (fun i => fails i = true) c [] srv :=
      h.guarded fun i hi hfail => ⟨hcalm i hi hfail, rfl⟩
    exact (hguarded.broadcast fun _ hfail => hfail).guarded fun _ _ hfalse => hfalse.elim
  | close d =>
    by_cases hd : d = c
    · subst hd
      exact h.setSock (append_nil _).symm (append_nil _).symm fun _ => ⟨rfl, rfl⟩
    · exact h.sockOther hd _
  | record d bs =>
    unfold Server.step
    dsimp only
    split
    · exact h
    · by_cases hd : d = c
      · subst hd
        exact h.setSock (append_nil _).symm (append_nil _).symm fun hc => ⟨hc, rfl⟩
      · exact h.sockOther hd _
  | send d bs =>
    unfold Server.step
    dsimp only
    split
    · exact h
    · rename_i hopen
      by_cases hd : d = c
      · subst hd
        exact h.setSock rfl rfl fun hc => absurd hc hopen
      · exact h.sockOther hd _

end Operations

theorem tracked_init (malloc : Nat → Bool) {tls : Bool} {c : Conn} (hplain : c.tcp = true → tls = false) :
    Tracked malloc (fun _ => False) c [] (init tls) := by
  have hfree : ∀ i, ¬ (init tls).Holds c i := by
    intro i hi
    rw [Holds, client, init, get_replicate_slot] at hi
    cases hi
  constructor
  case plain => exact hplain
  case unique => exact fun i _ hi _ => absurd hi (hfree i)
  case known => exact fun i hi => absurd hi (hfree i)
  case fresh => exact fun _ => ⟨rfl, rfl⟩
  case live => exact fun i hi => absurd hi (hfree i)
  case gone => exact fun hmem _ _ => nomatch hmem
  case guard => exact fun _ _ hfalse => hfalse.elim

theorem tracked_foldl {malloc : Nat → Bool} {c : Conn} {srv : Server} {evs : List Event}
    (h : Tracked malloc (fun _ => False) c [] srv) (hcalm : CalmRun malloc c srv evs) :
    Tracked malloc (fun _ => False) c [] (evs.foldl (step malloc) srv) := by
  induction evs generalizing srv with
  | nil => exact h
  | cons ev evs ih => exact ih (h.step hcalm.1) hcalm.2

/-- The calls of `on_frame` are those for an initial part of what was sent; for all of it once the slot
is free again. -/
theorem Tracked.framesOf_eq {malloc : Nat → Bool} {c : Conn} {srv : Server} {all : Bytes}
    (h : Tracked malloc (fun _ => False) c [] srv)
    (hok : (({} : FrameReader).feedAll malloc all).ok = true) (hsent : (srv.socks c).sent <+: all)
    (hall : (srv.socks c).closed = true → (srv.socks c).sent = all) :
    srv.framesOf c <+: (({} : FrameReader).feedAll malloc all).frames ∧
      (c ∈ srv.placed → (∀ i, ¬ srv.Holds c i) →
        srv.framesOf c = (({} : FrameReader).feedAll malloc all).frames) := by
  obtain ⟨rest, rfl⟩ := hsent
  have haccepted : srv.Accepted malloc c := ok_of_append hok
  have hgone : c ∈ srv.placed → (∀ i, ¬ srv.Holds c i) →
      srv.framesOf c = (({} : FrameReader).feedAll malloc ((srv.socks c).sent ++ rest)).frames := by
    intro hmem hnone
    obtain ⟨hclosed, hframes⟩ := h.gone hmem hnone haccepted
    rw [hframes, ← hall hclosed]
  refine ⟨?_, hgone⟩
  by_cases hmem : c ∈ srv.placed
  · by_cases hnone : ∀ i, ¬ srv.Holds c i
    · rw [hgone hmem hnone]
    · obtain ⟨i, hi⟩ := not_forall_not.mp hnone
      obtain ⟨-, consumed, hsplit, hfed⟩ := h.live i hi
      have hconsumed : (({} : FrameReader).feedAll malloc consumed).ok = true := by rw [hfed]
      rw [hsplit, append_assoc, feedAll_append hconsumed, hfed]
      exact prefix_append _ _
  · rw [(h.fresh hmem).1]
    exact nil_prefix

/-- Every frame of a plaintext client is delivered once, in order, and before its slot is dropped, in
every run in which no step finds the client hung up or broken while bytes of it are unread. -/
theorem frames_delivered_before_drop {malloc : Nat → Bool} (hmalloc : Allocates malloc) {tls : Bool}
    {evs : List Event} {c : Conn} {fs : List Frame} (hplain : c.tcp = true → tls = false)
    (hfs : ∀ f ∈ fs, f.Valid) (hcalm : CalmRun malloc c (init tls) evs)
    (hsent : ((run malloc tls evs).socks c).sent <+: fs.flatMap Frame.wire)
    (hall : ((run malloc tls evs).socks c).closed = true →
      ((run malloc tls evs).socks c).sent = fs.flatMap Frame.wire) :
    ∃ k ≤ fs.length,
      List.Forall₂ Delivered.Carries ((run malloc tls evs).framesOf c) (fs.take k) ∧
        (c ∈ (run malloc tls evs).placed → (∀ i, ¬ (run malloc tls evs).Holds c i) →
          k = fs.length) := by
  obtain ⟨hok, hcarries, -⟩ := feedAll_wires hmalloc between_init hfs
  have htracked : Tracked malloc (fun _ => False) c [] (run malloc tls evs) :=
    tracked_foldl (tracked_init malloc hplain) hcalm
  obtain ⟨hpre, hgone⟩ := htracked.framesOf_eq hok hsent hall
  have hlength := hcarries.length_eq
  refine ⟨((run malloc tls evs).framesOf c).length, ?_, ?_, ?_⟩
  · rw [← hlength]
    exact hpre.length_le
  · have htake := forall₂_take ((run malloc tls evs).framesOf c).length hcarries
    rw [← prefix_iff_eq_take.mp hpre] at htake
    exact htake
  · intro hmem hnone
    rw [← hlength]
    exact congrArg List.length (hgone hmem hnone)

/-- A client connects, writes two frames, which are read, and closes. -/
def politely : List Event :=
  [.poll { unix := some 0 }, .send ⟨false, 0⟩ (hello.wire ++ hosts.wire),
    .poll { readable := fun _ => true }, .close ⟨false, 0⟩,
    .poll { readable := fun _ => true, hangup := fun _ => true }]

theorem politely_calm : CalmRun (fun _ => true) ⟨false, 0⟩ (init false) politely := by
  have hquiet : ∀ {srv : Server} {p : Poll}, p.hangup = (fun _ => false) → p.io = (fun _ => .upTo readSize) →
      p.fails = (fun _ _ => false) → Calm ⟨false, 0⟩ srv (.poll p) := by
    intro srv p hhangup hio hfails _
    refine ⟨fun i _ hdrops => ?_, fun i _ k => by rw [hfails]⟩
    rcases hdrops with hup | hfailed | ⟨k, hfail⟩
    · rw [hhangup] at hup
      cases hup
    · rw [hio] at hfailed
      cases hfailed
    · rw [hfails] at hfail
      cases hfail
  refine ⟨hquiet rfl rfl rfl, trivial, hquiet rfl rfl rfl, trivial, fun _ => ⟨fun _ _ _ => ?_, ?_⟩, trivial⟩
  · exact ⟨by decide, by decide⟩
  · exact fun _ _ _ => rfl

theorem politely_delivered :
    ∃ k ≤ [hello, hosts].length,
      List.Forall₂ Delivered.Carries ((run (fun _ => true) false politely).framesOf ⟨false, 0⟩)
          ([hello, hosts].take k) ∧
        (⟨false, 0⟩ ∈ (run (fun _ => true) false politely).placed →
          (∀ i, ¬ (run (fun _ => true) false politely).Holds ⟨false, 0⟩ i) →
            k = [hello, hosts].length) :=
  frames_delivered_before_drop (fun _ _ => rfl) nofun
    (forall_mem_cons.mpr ⟨hello_valid, forall_mem_singleton.mpr hosts_valid⟩) politely_calm
    (by decide) (fun _ => by decide)

/-- The same without a call between the write and the close. -/
def hastily : List Event :=
  [.poll { unix := some 0 }, .send ⟨false, 0⟩ (hello.wire ++ hosts.wire), .close ⟨false, 0⟩,
    .poll { readable := fun _ => true, hangup := fun _ => true }]

theorem hastily_lost :
    ((run (fun _ => true) false hastily).socks ⟨false, 0⟩).sent = [hello, hosts].flatMap Frame.wire ∧
      ⟨false, 0⟩ ∈ (run (fun _ => true) false hastily).placed ∧
      (∀ i, ¬ (run (fun _ => true) false hastily).Holds ⟨false, 0⟩ i) ∧
      (run (fun _ => true) false hastily).framesOf ⟨false, 0⟩ = [] := by
  decide

end Server

end Packetsonde.Ipc
