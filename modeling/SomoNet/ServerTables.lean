import SomoNet.Servers

/-!
# The tables of the servers

What the servers' maps say and what is true of the links, without what goes over the
connections: which links are alive, under which ids, which of them are accepted and open, and
whom the two maps have under an id. On this level a step of the servers is a function of the
event (`step_tables`).
-/

namespace SomoNet

open Http

@[ext]
structure Tables where
  linkid : LinkPtr → Option UInt32
  /-- Of an accepted link: whether its connection is open (`m_pTcp != NULL`). -/
  isOpen : LinkPtr → Option Bool
  /-- `TcpServer::m_mapLinks` -/
  links : UInt32 → Option LinkPtr
  /-- The links of the sessions in `HttpServer::m_mapLink`. -/
  owner : UInt32 → Option LinkPtr
  nLastId : UInt32
  nextLink : LinkPtr
  created : ℕ

namespace Tables

/-- The connection of the accepted link `l` is closed. -/
def shut (t : Tables) (l : LinkPtr) : Tables :=
  { t with isOpen := fun l' => if l' = l then (t.isOpen l).map fun _ => false else t.isOpen l' }

def create (t : Tables) : Tables :=
  { t with
    linkid := Function.update t.linkid t.nextLink (some t.nLastId)
    nLastId := t.nLastId + 1
    nextLink := t.nextLink + 1
    created := t.created + 1 }

def accept (t : Tables) : Tables :=
  { t.create with
    isOpen := Function.update t.isOpen t.nextLink (some true)
    links := Function.update t.links t.nLastId (some t.nextLink)
    owner := if t.owner t.nLastId = none then Function.update t.owner t.nLastId (some t.nextLink)
      else t.owner }

def destroy (t : Tables) (l : LinkPtr) : Tables :=
  { t with
    linkid := Function.update t.linkid l none
    isOpen := Function.update t.isOpen l none }

/-- The session of the id goes, unless the id is the invalid one. -/
def forget (t : Tables) (linkid : UInt32) : Tables :=
  if linkid = 0 then t else { t with owner := Function.update t.owner linkid none }

/-- The link of the session that the events of `l` go to. -/
def route (t : Tables) (l : LinkPtr) : Option LinkPtr := (t.linkid l).bind t.owner

def next (t : Tables) : ServerEvent → Tables
  | .setHandler _ => t
  | .accept => t.accept
  | .create => t.create
  | .destroy l => t.destroy l
  | .read l _ _ answers =>
    if answers = [] then t else ((t.route l).map t.shut).getD t
  | .readError l _ => ((t.linkid l).map fun linkid => (t.forget linkid).shut l).getD t
  | .writeDone l _ status => if status < 0 then t.shut l else t

/-- What has to be true for the event to happen. -/
def Enabled (t : Tables) : ServerEvent → Prop
  | .destroy l => t.linkid l ≠ none
  | .read l _ _ answers =>
    t.isOpen l ≠ none ∧ t.linkid l ≠ none ∧ (answers ≠ [] → t.route l ≠ none)
  | .readError l _ => t.isOpen l ≠ none ∧ t.linkid l ≠ none
  | .writeDone l _ _ => t.isOpen l ≠ none
  | _ => True

theorem shut_shut (t : Tables) (l : LinkPtr) : (t.shut l).shut l = t.shut l := by
  have hopen : ((t.shut l).shut l).isOpen = (t.shut l).isOpen := by
    funext l'
    show (if l' = l then ((t.shut l).isOpen l).map _ else (t.shut l).isOpen l') = _
    split
    next hl =>
      subst hl
      have hshut : (t.shut l').isOpen l' = (t.isOpen l').map fun _ => false := if_pos rfl
      rw [hshut, Option.map_map]
      rfl
    next => rfl
  exact Tables.ext rfl hopen rfl rfl rfl rfl rfl

/-- Closing what is not an accepted link. -/
theorem shut_of_none {t : Tables} {l : LinkPtr} (h : t.isOpen l = none) : t.shut l = t := by
  have hopen : (t.shut l).isOpen = t.isOpen := by
    funext l'
    show (if l' = l then (t.isOpen l).map _ else t.isOpen l') = _
    split
    next hl => rw [hl, h, Option.map_none]
    next => rfl
  exact Tables.ext rfl hopen rfl rfl rfl rfl rfl

theorem linkid_destroy_eq_some {t : Tables} {l l' : LinkPtr} {i : UInt32} :
    (t.destroy l).linkid l' = some i ↔ l' ≠ l ∧ t.linkid l' = some i := by
  show (Function.update t.linkid l none) l' = some i ↔ _
  rw [Function.update_apply]
  split
  next hl => exact ⟨nofun, fun h => absurd hl h.1⟩
  next hl => exact ⟨fun h => ⟨hl, h⟩, fun h => h.2⟩

theorem isOpen_destroy_eq_some {t : Tables} {l l' : LinkPtr} {b : Bool} :
    (t.destroy l).isOpen l' = some b ↔ l' ≠ l ∧ t.isOpen l' = some b := by
  show (Function.update t.isOpen l none) l' = some b ↔ _
  rw [Function.update_apply]
  split
  next hl => exact ⟨nofun, fun h => absurd hl h.1⟩
  next hl => exact ⟨fun h => ⟨hl, h⟩, fun h => h.2⟩

/-- **What the next tables can be.** Every event of a connection ends it or changes nothing. -/
theorem next_cases {P : Tables → Prop} {t : Tables} (e : ServerEvent) (hsame : P t)
    (haccept : e = .accept → P t.accept) (hcreate : e = .create → P t.create)
    (hdestroy : ∀ l, P (t.destroy l)) (hshut : ∀ l, P (t.shut l))
    (hforget : ∀ l linkid, t.linkid l = some linkid → P ((t.forget linkid).shut l)) :
    P (t.next e) := by
  cases e with
  | setHandler handler => exact hsame
  | accept => exact haccept rfl
  | create => exact hcreate rfl
  | destroy l => exact hdestroy l
  | read l g seg answers =>
    show P (if answers = [] then t else ((t.route l).map t.shut).getD t)
    split
    · exact hsame
    · cases t.route l with
      | none => exact hsame
      | some p => exact hshut p
  | readError l g =>
    show P (((t.linkid l).map fun linkid => (t.forget linkid).shut l).getD t)
    cases hl : t.linkid l with
    | none => exact hsame
    | some linkid => exact hforget l linkid hl
  | writeDone l q status =>
    show P (if status < 0 then t.shut l else t)
    split
    · exact hshut l
    · exact hsame

end Tables

namespace ServerSys

def tables (s : ServerSys) : Tables where
  linkid := s.linkid
  isOpen l := (s.tcp l).map fun a => a.pTcp.isSome
  links := s.tcpServer.get_link
  owner linkid := (s.httpServer.mapLink.find linkid).map Session.pLink
  nLastId := s.nLastId
  nextLink := s.nextLink
  created := s.created

/-! ## The links -/

/-- The link has a new state whose connection is as before. -/
theorem tables_withSys_same {s : ServerSys} {l : LinkPtr} {a : TcpLink} (ha : s.tcp l = some a)
    {t : TcpSys} (h : t.link.pTcp.isSome = a.pTcp.isSome) : (s.withSys l t).tables = s.tables := by
  have hopen : (s.withSys l t).tables.isOpen = s.tables.isOpen := by
    funext l'
    show ((Function.update s.tcp l (some t.link)) l').map _ = (s.tcp l').map _
    rw [Function.update_apply]
    split
    next hl =>
      subst hl
      rw [ha, Option.map_some, Option.map_some, h]
    next => rfl
  exact Tables.ext rfl hopen rfl rfl rfl rfl rfl

/-- The link has a new state without a connection. -/
theorem tables_withSys_shut {s : ServerSys} {l : LinkPtr} {a : TcpLink} (ha : s.tcp l = some a)
    {t : TcpSys} (h : t.link.pTcp = none) : (s.withSys l t).tables = s.tables.shut l := by
  have hopen : (s.withSys l t).tables.isOpen = (s.tables.shut l).isOpen := by
    funext l'
    show ((Function.update s.tcp l (some t.link)) l').map _ =
      if l' = l then ((s.tcp l).map _).map _ else (s.tcp l').map _
    rw [Function.update_apply]
    split
    next hl =>
      rw [ha, Option.map_some, Option.map_some, Option.map_some, h]
      rfl
    next => rfl
  exact Tables.ext rfl hopen rfl rfl rfl rfl rfl

theorem tcpStep_some {s s' : ServerSys} {l : LinkPtr} {e : TcpEvent} (h : s.tcpStep l e = some s') :
    ∃ a t, s.tcp l = some a ∧ TcpSys.step ⟨a, s.loop⟩ e = some t ∧ s' = s.withSys l t := by
  obtain ⟨a, ha, hmap⟩ := Option.bind_eq_some_iff.mp h
  obtain ⟨t, ht, rfl⟩ := Option.map_eq_some_iff.mp hmap
  exact ⟨a, t, ha, ht, rfl⟩

theorem tables_dataReturn {s s' : ServerSys} {l : LinkPtr} {c : ℤ}
    (h : s.tcpStep l (.dataReturn c) = some s') : s'.tables = s.tables := by
  obtain ⟨a, t, ha, ht, rfl⟩ := tcpStep_some h
  apply tables_withSys_same ha
  cases TcpSys.step_case ht with
  | dataReturn _ hframe => rw [TcpSys.dataReturn_link]

theorem tables_closeReturn {s s' : ServerSys} {l : LinkPtr}
    (h : s.tcpStep l .closeReturn = some s') : s'.tables = s.tables.shut l := by
  obtain ⟨a, t, ha, ht, rfl⟩ := tcpStep_some h
  apply tables_withSys_shut ha
  cases TcpSys.step_case ht with
  | closeReturn hframe =>
    unfold TcpSys.closeReturn
    rw [TcpSys.shut_link]

theorem tables_writeDone {s s' : ServerSys} {l : LinkPtr} {q : ReqId} {status : ℤ}
    (h : s.tcpStep l (.writeDone q status) = some s') :
    s'.tables = if status < 0 then s.tables.shut l else s.tables := by
  obtain ⟨a, t, ha, ht, rfl⟩ := tcpStep_some h
  cases TcpSys.step_case ht with
  | @writeDone _ _ mem _ _ _ hreq hidle hstatus =>
    split
    next hneg =>
      apply tables_withSys_shut ha
      rw [TcpSys.onWrite_failed _ q mem hneg]
      split
      · rw [TcpSys.timerStart_link, TcpSys.shut_link]
      · rw [TcpSys.shut_link]
    next hneg =>
      apply tables_withSys_same ha
      rw [TcpSys.onWrite_done _ q mem hneg]

/-- The response to a request closes the link of the session. -/
theorem tables_respond (s : ServerSys) (p : LinkPtr) (answer : Bytes × ℤ) :
    (s.respond p answer).tables = s.tables.shut p := by
  unfold respond
  cases ha : s.tcp p with
  | some a =>
    apply tables_withSys_shut ha
    unfold TcpSys.respond TcpSys.close
    rw [TcpSys.shut_link]
  | none =>
    have hnone : s.tables.isOpen p = none := by
      show (s.tcp p).map _ = none
      rw [ha, Option.map_none]
    exact (Tables.shut_of_none hnone).symm

theorem tables_responses (s : ServerSys) (p : LinkPtr) (answers : List (Bytes × ℤ)) :
    (answers.foldl (fun s answer => s.respond p answer) s).tables =
      if answers = [] then s.tables else s.tables.shut p := by
  induction answers generalizing s with
  | nil => rfl
  | cons answer answers ih =>
    rw [List.foldl_cons, ih, tables_respond, if_neg (List.cons_ne_nil _ _)]
    -- closing a link twice is closing it once
    split
    · rfl
    · exact Tables.shut_shut _ _

/-! ## The sessions -/

/-- A session is replaced by one of the same link. -/
theorem tables_session {s : ServerSys} {linkid : UInt32} {session session' : Session}
    (h : s.httpServer.mapLink.find linkid = some session) (hlink : session'.pLink = session.pLink) :
    tables { s with
      httpServer :=
        { s.httpServer with mapLink := s.httpServer.mapLink.insert linkid session' } } = s.tables := by
  have howner : (fun i => ((s.httpServer.mapLink.insert linkid session').find i).map Session.pLink) =
      s.tables.owner := by
    funext i
    show _ = (s.httpServer.mapLink.find i).map Session.pLink
    rw [SortedMap.find_insert]
    split
    next hi => rw [hi, h, Option.map_some, Option.map_some, hlink]
    next => rfl
  exact Tables.ext rfl rfl rfl howner rfl rfl rfl

theorem tables_on_data {s s' : ServerSys} {l : LinkPtr} {linkid : UInt32} {data : Bytes}
    {answers : List (Bytes × ℤ)} (h : s.on_data l linkid data answers = some s') :
    (answers ≠ [] → s.tables.owner linkid ≠ none) ∧
      s'.tables =
        if answers = [] then s.tables else ((s.tables.owner linkid).map s.tables.shut).getD s.tables := by
  have howner : s.tables.owner linkid = (s.httpServer.mapLink.find linkid).map Session.pLink := rfl
  unfold on_data at h
  cases hfind : s.httpServer.mapLink.find linkid with
  | none =>
    rw [hfind] at h
    dsimp only at h
    split_ifs at h with hnil
    refine ⟨fun hne => absurd hnil hne, ?_⟩
    rw [tables_dataReturn h, if_pos hnil]
  | some session =>
    rw [hfind] at h howner
    dsimp only at h
    split_ifs at h with hlen
    have hsession := @tables_session s linkid session (session.on_data data).1 hfind rfl
    rw [howner]
    refine ⟨fun _ => Option.some_ne_none _, ?_⟩
    rw [tables_dataReturn h, tables_responses, hsession]
    rfl

theorem tables_on_close (s : ServerSys) (linkid : UInt32) :
    tables { s with httpServer := s.httpServer.on_close linkid } = s.tables.forget linkid := by
  unfold HttpServer.on_close Tables.forget
  split
  next => rfl
  next hzero =>
    cases hfind : s.httpServer.mapLink.find linkid with
    -- there is no session to delete
    | none =>
      have howner : s.tables.owner = Function.update s.tables.owner linkid none := by
        have hnone : s.tables.owner linkid = none := by
          show (s.httpServer.mapLink.find linkid).map _ = none
          rw [hfind, Option.map_none]
        rw [← hnone, Function.update_eq_self]
      exact Tables.ext rfl rfl rfl howner rfl rfl rfl
    | some session =>
      have howner : (fun i => ((s.httpServer.mapLink.erase linkid).find i).map Session.pLink) =
          Function.update s.tables.owner linkid none := by
        funext i
        rw [SortedMap.find_erase, Function.update_apply]
        split
        · rfl
        · rfl
      exact Tables.ext rfl rfl rfl howner rfl rfl rfl

/-! ## Steps -/

theorem tables_accept (s : ServerSys) : s.accept.tables = s.tables.accept := by
  have hopen : s.accept.tables.isOpen = s.tables.accept.isOpen := by
    funext l
    show ((Function.update s.tcp s.nextLink _) l).map _ =
      (Function.update s.tables.isOpen s.nextLink (some true)) l
    rw [Function.update_apply, Function.update_apply]
    split
    · rfl
    · rfl
  have hlinks : s.accept.tables.links = s.tables.accept.links := by
    funext i
    show (s.tcpServer.mapLinks.insert s.nLastId s.nextLink).find i =
      (Function.update s.tables.links s.nLastId (some s.nextLink)) i
    rw [SortedMap.find_insert, Function.update_apply]
    rfl
  have howner : s.accept.tables.owner = s.tables.accept.owner := by
    show (fun i => ((s.httpServer.on_connected s.nLastId s.nextLink).mapLink.find i).map
      Session.pLink) = if s.tables.owner s.nLastId = none then _ else _
    unfold HttpServer.on_connected
    cases hfind : s.httpServer.mapLink.find s.nLastId with
    | none =>
      have hnone : s.tables.owner s.nLastId = none := by
        show (s.httpServer.mapLink.find s.nLastId).map _ = none
        rw [hfind, Option.map_none]
      rw [if_pos hnone]
      funext i
      show ((s.httpServer.mapLink.insert s.nLastId _).find i).map _ =
        (Function.update s.tables.owner s.nLastId (some s.nextLink)) i
      rw [SortedMap.find_insert, Function.update_apply]
      split
      · rfl
      · rfl
    -- `on_connected` finds an old session and keeps it
    | some session =>
      have hsome : s.tables.owner s.nLastId ≠ none := by
        show (s.httpServer.mapLink.find s.nLastId).map _ ≠ none
        rw [hfind]
        exact Option.some_ne_none _
      rw [if_neg hsome]
      rfl
  exact Tables.ext rfl hopen hlinks howner rfl rfl rfl

theorem tables_destroy (s : ServerSys) (l : LinkPtr) : (s.destroy l).tables = s.tables.destroy l := by
  have hopen : (s.destroy l).tables.isOpen = (s.tables.destroy l).isOpen := by
    funext l'
    show ((Function.update s.tcp l none) l').map _ = (Function.update s.tables.isOpen l none) l'
    rw [Function.update_apply, Function.update_apply]
    split
    · rfl
    · rfl
  exact Tables.ext rfl hopen rfl rfl rfl rfl rfl

theorem isOpen_ne_none {s : ServerSys} {l : LinkPtr} {a : TcpLink} (ha : s.tcp l = some a) :
    s.tables.isOpen l ≠ none := by
  show (s.tcp l).map _ ≠ none
  rw [ha]
  exact Option.some_ne_none _

/-- Whatever becomes of a link that is closed then. -/
theorem tables_withSys_then_shut {s : ServerSys} {l : LinkPtr} {a : TcpLink} (ha : s.tcp l = some a)
    (t : TcpSys) : (s.withSys l t).tables.shut l = s.tables.shut l := by
  have hopen : ((s.withSys l t).tables.shut l).isOpen = (s.tables.shut l).isOpen := by
    funext l'
    show (if l' = l then (((Function.update s.tcp l (some t.link)) l).map _).map _
      else ((Function.update s.tcp l (some t.link)) l').map _) =
      if l' = l then ((s.tcp l).map _).map _ else (s.tcp l').map _
    split
    next =>
      rw [Function.update_self, ha]
      rfl
    next hl => rw [Function.update_of_ne hl]
  exact Tables.ext rfl hopen rfl rfl rfl rfl rfl

/-- **The servers refine their tables.** -/
theorem step_tables {s s' : ServerSys} {e : ServerEvent} (h : s.step e = some s') :
    s.tables.Enabled e ∧ s'.tables = s.tables.next e := by
  cases e with
  | setHandler handler =>
    cases h
    exact ⟨trivial, rfl⟩
  | accept =>
    cases h
    exact ⟨trivial, tables_accept s⟩
  | create =>
    cases h
    exact ⟨trivial, rfl⟩
  | destroy l =>
    simp only [step] at h
    split_ifs at h with hsome
    cases h
    exact ⟨Option.isSome_iff_ne_none.mp hsome, tables_destroy s l⟩
  | read l g seg answers =>
    obtain ⟨linkid, hid, h⟩ := Option.bind_eq_some_iff.mp h
    obtain ⟨a, ha, h⟩ := Option.bind_eq_some_iff.mp h
    obtain ⟨t, ht, h⟩ := Option.bind_eq_some_iff.mp h
    have hsame : (s.withSys l t).tables = s.tables := by
      apply tables_withSys_same ha
      cases TcpSys.step_case ht with
      | read _ _ _ hlen => rw [TcpSys.onRead_link _ hlen]
    have hroute : s.tables.route l = s.tables.owner linkid := by
      show (s.linkid l).bind s.tables.owner = _
      rw [hid, Option.bind_some]
    have hid' : s.tables.linkid l ≠ none := by
      show s.linkid l ≠ none
      rw [hid]
      exact Option.some_ne_none _
    obtain ⟨howner, htables⟩ := tables_on_data h
    rw [hsame, ← hroute] at howner htables
    exact ⟨⟨isOpen_ne_none ha, hid', howner⟩, htables⟩
  | readError l g =>
    obtain ⟨linkid, hid, h⟩ := Option.bind_eq_some_iff.mp h
    obtain ⟨t, ht, h⟩ := Option.bind_eq_some_iff.mp h
    obtain ⟨a, r, ha, hr, rfl⟩ := tcpStep_some ht
    have hid' : s.tables.linkid l = some linkid := hid
    refine ⟨⟨isOpen_ne_none ha, by rw [hid']; exact Option.some_ne_none _⟩, ?_⟩
    -- the session and the connection go independently of each other
    have hforget : ∀ t : Tables, (t.forget linkid).shut l = (t.shut l).forget linkid := by
      intro t
      unfold Tables.forget
      split <;> rfl
    show _ = ((s.tables.linkid l).map _).getD _
    rw [hid', Option.map_some, Option.getD_some, tables_closeReturn h, tables_on_close, hforget,
      tables_withSys_then_shut ha, ← hforget]
  | writeDone l q status =>
    have ⟨a, _, ha, _, _⟩ := tcpStep_some h
    exact ⟨isOpen_ne_none ha, tables_writeDone h⟩

end ServerSys
end SomoNet
