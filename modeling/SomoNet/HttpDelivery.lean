import SomoNet.HttpMessage
import SomoNet.InFlight

/-!
# What reaches the client of a response

`HttpPeerLink::on_complete` answers a request by formatting the handler's result, sending
it and closing the link, without looking at what `send` returns or waiting for the write.
How much of the response reaches the client is then up to the kernel: `uv_write` transmits
at once what the kernel accepts and queues the rest, and `uv_close` cancels the queue. That
`on_complete` is reached rests on the callbacks before it giving 0 (`HttpPeerLink.settings`).
-/

namespace SomoNet

open Run

/-! ## The connection -/

/-- What has gone out on a connection, and what is queued behind it. -/
structure Wire where
  sent : List Cell
  queue : List Cell

/-- One call into libuv, as the connection `h` sees it; `ready` is what the kernel accepts
at the moment of a write. -/
def Wire.observe (h : HandleId) (ready : ℕ) (w : Wire) : Obs → Wire
  | .write h' buf =>
    if h' ≠ h then w
    else if w.queue = [] then ⟨w.sent ++ buf.take ready, buf.drop ready⟩
    else ⟨w.sent, w.queue ++ buf⟩
  | .uvClose h' => if h' ≠ h then w else ⟨w.sent, []⟩
  | _ => w

/-- The bytes that go out on `h` over the calls, nothing being queued before them. -/
def transmitted (h : HandleId) (ready : ℕ) (os : List Obs) : List Cell :=
  (os.foldl (Wire.observe h ready) ⟨[], []⟩).sent

/-- Without a write on the connection nothing goes out. -/
theorem transmitted_shut (h : HandleId) (ready : ℕ) (pTcp : Option HandleId) :
    transmitted h ready (pTcp.toList.map .uvClose ++ [.timerStop]) = [] := by
  cases pTcp with
  | none => rfl
  | some g => simp [transmitted, Wire.observe]

/-- A write followed by the close: only what the kernel took at once. -/
theorem transmitted_write_shut (h : HandleId) (ready : ℕ) (buf : List Cell) :
    transmitted h ready (.write h buf :: ([h].map .uvClose ++ [.timerStop])) = buf.take ready := by
  simp [transmitted, Wire.observe]

theorem transmitted_write_ne {g h : HandleId} (hne : g ≠ h) (ready : ℕ) (buf : List Cell) :
    transmitted h ready (.write g buf :: ([g].map .uvClose ++ [.timerStop])) = [] := by
  simp [transmitted, Wire.observe, hne]

/-! ## `on_complete` -/

/-- The bytes of the response to a handler's result. -/
def reply (res : Bytes) : Bytes := (HttpResponse.new.set_body res).format

theorem reply_ne_nil (res : Bytes) : reply res ≠ [] := HttpResponse.format_ne_nil _

namespace TcpSys

/-- The end of `HttpPeerLink::on_complete`, the same for both methods: `r` is what
`uv_write` returns. -/
def respond (s : TcpSys) (res : Bytes) (r : ℤ) : TcpSys := ((s.send (reply res) r).1.close).1

/-- What the link does while it responds. -/
def respondObs (s : TcpSys) (res : Bytes) (r : ℤ) : List Obs :=
  (s.respond res r).link.trace.drop s.link.trace.length

theorem respondObs_of_link {s s' : TcpSys} {res : Bytes} {r : ℤ}
    (h : (s.send (reply res) r).1 = s') (os : List Obs) (hlink : s'.link.pTcp = s.link.pTcp)
    (htrace : s'.link.trace = s.link.trace ++ os) :
    s.respondObs res r = os ++ (s.link.pTcp.toList.map .uvClose ++ [.timerStop]) := by
  unfold respondObs respond close
  rw [h, shut_link, hlink, htrace]
  simp only [List.append_assoc]
  rw [List.drop_left]

/-- An item whose length wrapped to a negative `int` was never written to. -/
theorem none_mem_bufCells {s : TcpSys} (hs : s.loop.Sound) {data : List UInt8} {pool : MemPool}
    {mem : MemPtr} (hget : s.loop.pool.get (toInt32 data.length) = (pool, some mem))
    (hneg : toInt32 data.length ≤ 0) (hlong : 2147483648 ≤ toUInt32 data.length) :
    none ∈ (s.loop.withItem pool mem data).bufCells mem (toUInt32 data.length) := by
  obtain ⟨hv, hr | ⟨m, hm, -, -, hout, -⟩⟩ := MemPool.get_spec hs.pool hget
  · cases hr.1
  cases hm
  obtain ⟨it, hit⟩ := hout.exists_item
  have hheap : (s.loop.withItem pool mem data).pool.heap mem = some it := by
    simp [Loop.withItem, MemPool.assign, MemPool.setItem, hit, MemItem.assign, hneg]
  obtain ⟨hsize, hcap⟩ := hv.sized mem it hit
  unfold Loop.bufCells
  rw [hheap]
  apply Block.none_mem_read
  · omega
  · omega

/-- A send that was cut short of its payload's length, or that copied nothing, does not
transmit the payload. -/
theorem length_of_transmitted {s : TcpSys} (hs : s.loop.Sound) {data : List UInt8}
    {pool : MemPool} {mem : MemPtr}
    (hget : s.loop.pool.get (toInt32 data.length) = (pool, some mem)) {ready : ℕ}
    (h : ((s.loop.withItem pool mem data).bufCells mem (toUInt32 data.length)).take ready
      = cells data) : data.length ≤ 524288 ∧ data.length ≤ ready := by
  have hmax : toInt32 data.length ≤ 524288 := by
    have hsome := s.loop.pool.get_isSome (toInt32 data.length)
    rw [hget] at hsome
    exact hsome.mp rfl
  have hlen : ((s.loop.withItem pool mem data).bufCells mem (toUInt32 data.length)).length
      ≤ toUInt32 data.length := by
    unfold Loop.bufCells
    split
    · rw [Block.length_read]
    · exact Nat.zero_le _
  have heq := congrArg List.length h
  rw [List.length_take, List.length_map] at heq
  have hmod := toUInt32_natCast data.length
  refine ⟨?_, by omega⟩
  by_contra hlong
  -- the length fits an `unsigned int`, so as an `int` it is negative
  have hbig : ¬ toUInt32 data.length < 2147483648 := by
    intro hsmall
    unfold toInt32 at hmax
    rw [if_pos hsmall] at hmax
    omega
  have hneg : toInt32 data.length ≤ 0 := by
    unfold toInt32
    rw [if_neg hbig]
    omega
  have hnone := none_mem_bufCells hs hget hneg (by omega)
  rw [List.take_of_length_le (by omega)] at h
  rw [h] at hnone
  simp at hnone

/-- **Delivery of a response.** On a link of a reachable process, the bytes transmitted on
the connection `h` are those of the formatted response if and only if the link is connected
on `h`, `uv_write` accepts, and the response fits both the pool and what the kernel takes
at once. -/
theorem transmitted_respond_iff {w : World} (hw : Reaches World.step World.new w) {l : LinkPtr}
    {s : TcpSys} (hs : w.sys l = some s) (h : HandleId) (res : Bytes) (ready : ℕ) (r : ℤ) :
    transmitted h ready (s.respondObs res r) = cells (reply res) ↔
      s.link.pTcp = some h ∧ s.link.bConnecting = false ∧ s.link.bConnected = true ∧ r = 0 ∧
        (reply res).length ≤ 524288 ∧ (reply res).length ≤ ready := by
  have hsound : s.loop.Sound := by
    rw [World.sys_loop hs]
    exact (World.inv_step.reaches World.inv_new hw).sound
  have hne : ([] : List Cell) ≠ cells (reply res) := by
    intro he
    exact reply_ne_nil res (List.map_eq_nil_iff.mp he.symm)
  have hout := s.send_outcome (reply res) r
  have hsome := s.loop.pool.get_isSome (toInt32 (reply res).length)
  generalize hsend : s.send (reply res) r = t at hout
  -- a send that does not get as far as the queue leaves the connection silent
  have hsilent : t.1.link = s.link →
      transmitted h ready (s.respondObs res r) = [] := by
    intro hlink
    rw [respondObs_of_link (by rw [hsend]) [] (by rw [hlink]) (by rw [hlink, List.append_nil]),
      List.nil_append, transmitted_shut]
  rcases hout with hnot | hget | ⟨htcp, hconn, hget, hr⟩ | ⟨htcp, hconn, hget, hr⟩
  · rw [hsilent rfl]
    refine ⟨fun he => absurd he hne, ?_⟩
    rintro ⟨htcp, hconnecting, hconnected, -⟩
    rcases hnot with hnot | hnot | hnot
    · rw [hnot] at htcp
      cases htcp
    · rw [hnot] at hconnecting
      cases hconnecting
    · rw [hnot] at hconnected
      cases hconnected
  · rw [hsilent rfl]
    refine ⟨fun he => absurd he hne, ?_⟩
    rintro ⟨-, -, -, -, hlen, -⟩
    have hint : toInt32 (reply res).length = (reply res).length :=
      toInt32_of_mem (by omega) (by omega)
    rw [hget, hint] at hsome
    have hmax : ((reply res).length : ℤ) ≤ MEM_ITEM_SIZE_MAX := by
      unfold MEM_ITEM_SIZE_MAX
      omega
    cases hsome.mpr hmax
  · rw [hsilent rfl]
    exact ⟨fun he => absurd he hne, fun hc => absurd hc.2.2.2.1 hr⟩
  · rename_i g pool mem
    have hobs := respondObs_of_link rfl [.write g _] (by rw [hsend]; rfl) (by rw [hsend]; rfl)
    rw [hobs, htcp, List.singleton_append]
    by_cases hgh : g = h
    · rw [hgh]
      show transmitted h ready (.write h _ :: ([h].map .uvClose ++ [.timerStop])) = _ ↔ _
      rw [transmitted_write_shut]
      constructor
      · intro he
        obtain ⟨hlen, hready⟩ := length_of_transmitted hsound hget he
        exact ⟨rfl, hconn.1, hconn.2, hr, hlen, hready⟩
      · rintro ⟨-, -, -, -, hlen, hready⟩
        have hpos : 1 ≤ (reply res).length := List.length_pos_of_ne_nil (reply_ne_nil res)
        obtain ⟨-, -, -, -, hbytes⟩ := hsound.taken hget
        rw [hbytes hpos hlen, List.take_of_length_le (by rw [List.length_map]; exact hready)]
    · -- the write goes out on another connection
      show transmitted h ready (.write g _ :: ([g].map .uvClose ++ [.timerStop])) = _ ↔ _
      rw [transmitted_write_ne hgh]
      refine ⟨fun he => absurd he hne, ?_⟩
      rintro ⟨hcur, -⟩
      cases hcur
      exact absurd rfl hgh

/-- The first request of an accepted link, answered with an empty result. -/
theorem transmitted_respond_accepted :
    transmitted 0 200 ((accepted 0 Loop.new).respondObs [] 0) = cells (reply []) ↔
      (accepted 0 Loop.new).link.pTcp = some 0 ∧
        (accepted 0 Loop.new).link.bConnecting = false ∧
        (accepted 0 Loop.new).link.bConnected = true ∧ (0 : ℤ) = 0 ∧
        (reply []).length ≤ 524288 ∧ (reply []).length ≤ 200 :=
  @transmitted_respond_iff (World.new.addTcp (accepted 0 Loop.new)) ⟨[.accept], rfl⟩ 0
    (accepted 0 Loop.new) rfl 0 [] 200 0

/-- The kernel takes 10 bytes of the response; the rest is cancelled by the close. -/
theorem not_transmitted_slow_client :
    transmitted 0 10 ((accepted 0 Loop.new).respondObs [] 0) ≠ cells (reply []) := by
  decide +kernel

end TcpSys
end SomoNet
