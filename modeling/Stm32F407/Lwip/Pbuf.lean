import Mathlib.Algebra.Order.Ring.Nat
import Mathlib.Data.List.Nodup
import Mathlib.Logic.Function.Basic

/-!
# Packet buffers: `pbuf.c`

Model of the reference counting of lwIP's packet buffers: `pbuf_ref`, `pbuf_free` and `pbuf_take`.

* A pointer to a `pbuf` is the list of the buffers from there to the end of its chain, and `NULL` is
  the empty list; none of the functions changes a `next` field.
* `ref` is an 8-bit counter (`LWIP_PBUF_REF_T`), so a free of a buffer whose counter is 0 leaves 255
  there. Assertions are off (`LWIP_NOASSERT`), so nothing stops it.
* The heap records what the pool got back (`deallocated`), and every decrement of a counter that was
  already 0 (`overfreed`).

Results: what `pbuf_free` does to a chain that is its own (`pbufFree_ones`), to one whose head is
still referenced (`pbufFree_kept`) and to one that was already freed (`pbufFree_zero`).
-/

namespace Stm32F407.Lwip

/-- `err_t`. -/
inductive ErrT where
  | ok
  | mem
  | buf
  | timeout
  | rte
  | inprogress
  | val
  | wouldblock
  | use
  | already
  | isconn
  | conn
  | if_
  | abrt
  | rst
  | clsd
  | arg
deriving DecidableEq, Repr

/-- A packet buffer of a chain: its address and its payload of `len` bytes. -/
structure Pbuf where
  addr : Nat
  payload : List UInt8
deriving DecidableEq, Repr

/-- `len`. -/
def Pbuf.len (p : Pbuf) : Nat := p.payload.length

/-- `tot_len` of the head of a chain. -/
def totLen (p : List Pbuf) : Nat := (p.map Pbuf.len).sum

/-- The reference counters, the buffers given back to the pool, and the frees of a buffer whose
counter had already reached 0. -/
structure PbufHeap where
  ref : Nat → Nat
  deallocated : List Nat
  overfreed : List Nat

/-- `pbuf_ref`. -/
def pbufRef : List Pbuf → PbufHeap → PbufHeap
  | [], h => h
  | p :: _, h => { h with ref := Function.update h.ref p.addr ((h.ref p.addr + 1) % 256) }

/-- `pbuf_free`: the number of buffers deallocated, and the heap. -/
def pbufFree : List Pbuf → PbufHeap → Nat × PbufHeap
  | [], h => (0, h)
  | p :: q, h =>
    let ref := (h.ref p.addr + 255) % 256
    let h' : PbufHeap :=
      { h with
        ref := Function.update h.ref p.addr ref
        overfreed := if h.ref p.addr = 0 then h.overfreed ++ [p.addr] else h.overfreed }
    if ref = 0 then
      let r := pbufFree q { h' with deallocated := h'.deallocated ++ [p.addr] }
      ((r.1 + 1) % 256, r.2)
    else (0, h')

/-- The copy loop of `pbuf_take`. -/
def pbufTakeLoop : List Pbuf → List UInt8 → List Pbuf
  | [], _ => []
  | p :: q, data =>
    { p with payload := data.take p.len ++ p.payload.drop data.length } ::
      pbufTakeLoop q (data.drop p.len)

/-- `pbuf_take`: the error code, and the chain with the data in its payloads. -/
def pbufTake (p : List Pbuf) (data : List UInt8) : ErrT × List Pbuf :=
  if p = [] then (.arg, p)
  else if totLen p < data.length then (.mem, p)
  else (.ok, pbufTakeLoop p data)

/-! ## What `pbuf_take` keeps -/

/-- The copy stays within each payload and changes no address. -/
theorem pbufTakeLoop_frame (p : List Pbuf) (data : List UInt8) :
    (pbufTakeLoop p data).map (fun q => (q.addr, q.len)) = p.map fun q => (q.addr, q.len) := by
  induction p generalizing data with
  | nil => rfl
  | cons q p ih =>
    rw [pbufTakeLoop, List.map_cons, List.map_cons, ih]
    simp only [Pbuf.len, List.length_append, List.length_take, List.length_drop, List.cons.injEq,
      Prod.mk.injEq, true_and, and_true]
    omega

/-- `pbuf_take` keeps the addresses and the lengths of the chain. -/
theorem pbufTake_frame (p : List Pbuf) (data : List UInt8) :
    (pbufTake p data).2.map (fun q => (q.addr, q.len)) = p.map fun q => (q.addr, q.len) := by
  unfold pbufTake
  split
  · rfl
  · split
    · rfl
    · exact pbufTakeLoop_frame p data

theorem pbufTake_addr (p : List Pbuf) (data : List UInt8) :
    (pbufTake p data).2.map Pbuf.addr = p.map Pbuf.addr := by
  have := congrArg (List.map Prod.fst) (pbufTake_frame p data)
  rwa [List.map_map, List.map_map] at this

/-! ## What `pbuf_free` does -/

/-- The heap after the buffers at `as`, each referenced once, have gone back to the pool. -/
def PbufHeap.released (h : PbufHeap) (as : List Nat) : PbufHeap :=
  { h with
    ref := fun a => if a ∈ as then 0 else h.ref a
    deallocated := h.deallocated ++ as }

@[simp] theorem released_nil (h : PbufHeap) : h.released [] = h := by
  simp [PbufHeap.released]

theorem released_append (h : PbufHeap) (as bs : List Nat) :
    (h.released as).released bs = h.released (as ++ bs) := by
  simp only [PbufHeap.released, List.mem_append, List.append_assoc, PbufHeap.mk.injEq, and_true]
  funext a
  by_cases ha : a ∈ as <;> by_cases hb : a ∈ bs <;> simp [ha, hb]

/-- Freeing a buffer that is referenced once goes on with the rest of its chain. -/
theorem pbufFree_one {h : PbufHeap} {p : Pbuf} (q : List Pbuf) (href : h.ref p.addr = 1) :
    (pbufFree (p :: q) h).2 = (pbufFree q (h.released [p.addr])).2 := by
  have hupd : Function.update h.ref p.addr 0 = (h.released [p.addr]).ref := by
    funext a
    simp [PbufHeap.released, Function.update_apply]
  rw [pbufFree, href]
  simp only [if_neg Nat.one_ne_zero, hupd]
  rfl

/-- **A chain that is its own**: every buffer is referenced once and goes back to the pool. -/
theorem pbufFree_ones {h : PbufHeap} {p : List Pbuf} (hnd : (p.map Pbuf.addr).Nodup)
    (href : ∀ q ∈ p, h.ref q.addr = 1) :
    (pbufFree p h).2 = h.released (p.map Pbuf.addr) := by
  induction p generalizing h with
  | nil => rw [pbufFree, List.map_nil, released_nil]
  | cons q p ih =>
    rw [List.map_cons, List.nodup_cons] at hnd
    rw [pbufFree_one p (href q List.mem_cons_self), ih hnd.2 fun r hr => ?_, released_append]
    · rfl
    · -- the head is not one of the others
      have hne : r.addr ≠ q.addr := fun he => hnd.1 (he ▸ List.mem_map_of_mem hr)
      simp only [PbufHeap.released, List.mem_singleton, hne, if_false]
      exact href r (List.mem_cons_of_mem _ hr)

/-- **A head that is still referenced** loses one reference, and the free stops there. -/
theorem pbufFree_kept {h : PbufHeap} {p : Pbuf} (q : List Pbuf) {n : Nat} (hn : n + 2 < 256)
    (href : h.ref p.addr = n + 2) :
    (pbufFree (p :: q) h).2 = { h with ref := Function.update h.ref p.addr (n + 1) } := by
  rw [pbufFree, href]
  have : (n + 2 + 255) % 256 = n + 1 := by omega
  simp [this]

/-- **A head that was already freed** is freed once more: its counter wraps to 255. -/
theorem pbufFree_zero {h : PbufHeap} {p : Pbuf} (q : List Pbuf) (href : h.ref p.addr = 0) :
    (pbufFree (p :: q) h).2 =
      { h with
        ref := Function.update h.ref p.addr 255
        overfreed := h.overfreed ++ [p.addr] } := by
  rw [pbufFree, href]
  simp

/-- What has gone back to the pool stays there. -/
theorem pbufFree_deallocated_length (p : List Pbuf) (h : PbufHeap) :
    h.deallocated.length ≤ (pbufFree p h).2.deallocated.length := by
  induction p generalizing h with
  | nil => exact Nat.le_refl _
  | cons p q ih =>
    rw [pbufFree]
    dsimp only
    split
    · refine Nat.le_trans ?_ (ih _)
      simp
    · exact Nat.le_refl _

/-- Freeing a chain always shows: either its head goes back to the pool, or the counter of the head
changes. -/
theorem pbufFree_ne_self {p : List Pbuf} (hp : p ≠ []) (h : PbufHeap) : (pbufFree p h).2 ≠ h := by
  obtain ⟨p, q, rfl⟩ := List.exists_cons_of_ne_nil hp
  intro heq
  rw [pbufFree] at heq
  dsimp only at heq
  split at heq
  · -- the head is on the list of the deallocated buffers, which never gets shorter
    have hlen := congrArg (fun g : PbufHeap => g.deallocated.length) heq
    have hle := pbufFree_deallocated_length q
      { ref := Function.update h.ref p.addr ((h.ref p.addr + 255) % 256)
        deallocated := h.deallocated ++ [p.addr]
        overfreed := if h.ref p.addr = 0 then h.overfreed ++ [p.addr] else h.overfreed }
    simp only [List.length_append, List.length_singleton] at hle hlen
    omega
  · have href := congrFun (congrArg PbufHeap.ref heq) p.addr
    simp only [Function.update_self] at href
    omega

/-- `pbuf_ref` on the next buffer and `pbuf_free` on this one, as a sender walks a chain: this
buffer goes back to the pool and the rest of the chain is as before. -/
theorem pbufFree_pbufRef {h : PbufHeap} {p : Pbuf} {q : List Pbuf}
    (hnd : ((p :: q).map Pbuf.addr).Nodup) (href : ∀ r ∈ p :: q, h.ref r.addr = 1) :
    (pbufFree (p :: q) (pbufRef q h)).2 = h.released [p.addr] := by
  rw [List.map_cons, List.nodup_cons] at hnd
  have hp := href p List.mem_cons_self
  cases q with
  | nil => rw [pbufRef, pbufFree_one [] hp, pbufFree]
  | cons r q =>
    have hr := href r (List.mem_cons_of_mem _ List.mem_cons_self)
    have hne : p.addr ≠ r.addr := fun he => hnd.1 (by simp [he])
    rw [pbufFree_one _ (by simp [pbufRef, hne, hp]), pbufFree_kept (n := 0) q (by omega)]
    · -- the reference taken and dropped again leaves the counter of `r` at 1
      simp only [PbufHeap.released, pbufRef, List.mem_singleton, PbufHeap.mk.injEq, and_true]
      funext a
      by_cases ha : a = r.addr
      · simp [ha, Ne.symm hne, hr]
      · simp [ha]
    · simp [PbufHeap.released, pbufRef, Ne.symm hne, hr]

end Stm32F407.Lwip
