import Mathlib.Algebra.Order.BigOperators.Group.List
import Mathlib.Data.List.Perm.Basic
import Stm32F407.Lib.Runs
import Stm32F407.Lwip.ReassSteps

/-!
# Runs of the reassembly queue

The queue is fed with fragments of any senders, in any order, and its timer runs in between. `Sound`
says of one datagram that its fragments are in order, were received under its addresses and its
identification, and that the last of them, once seen, gives the length; `Inv` says of the whole queue
that its datagrams are sound and have different keys, and that the buffer count is exact and within its
bounds. Every call keeps it (`Inv.ip4Reass`, `Inv.tmrLoop`).

A call is one step: `ETH_IRQHandler` runs lwIP beside the main loop in this program, and the results
are about calls of `ip4_reass` and `ip_reass_tmr` that do not interrupt each other.

So the queue never holds more than the buffers and datagrams it may (`queue_within_bounds`), and a
datagram that is handed out is made of received fragments of one sender and one identification, each
byte at the place its fragment gives it (`delivered_as_received`). When these are the fragments of one
datagram, it is that datagram (`delivered_as_sent`).
-/

namespace Stm32F407.Lwip.Reass

open Stm32F407.Lib

variable {r ipr : Reassdata} {p : Frag} {s s' : State} {d : Datagram} {i : Nat} {k : IpHdr}
  {hist : List Frag} {front back : List Helper}

/-- What the fragments of one datagram have in common. -/
def IpHdr.key (h : IpHdr) : UInt32 × UInt32 × UInt16 := (h.src, h.dest, h.id)

theorem matches_iff {a b : IpHdr} : Matches a b ↔ a.key = b.key := by
  unfold Matches IpHdr.key
  rw [Prod.mk.injEq, Prod.mk.injEq]

/-- The datagram's fragments are in order and received, and its header and length are theirs. -/
structure Sound (hist : List Frag) (r : Reassdata) : Prop where
  ordered : r.p.Pairwise BeforeFrag
  received : ∀ q ∈ r.p, ∃ f ∈ hist, f.hdr.key = r.iphdr.key ∧ q = f.helper
  header : ∃ f ∈ hist, f.hdr = r.iphdr
  first : ∀ q ∈ r.p, q.start = 0 → r.iphdr.offsetBytes = 0
  last : r.lastfrag = true → ∃ f ∈ hist, f.hdr.key = r.iphdr.key ∧ f.hdr.mf = false ∧
    f.helper ∈ r.p ∧ r.datagramLen = f.helper.stop ∧ f.helper.stop + ipHlen < 2 ^ 16

/-- The buffers queued for all datagrams. -/
def bufs (l : List Reassdata) : Nat := (l.map fun r => clens r.p).sum

/-- The keys of the datagrams. -/
def keys (l : List Reassdata) : List (UInt32 × UInt32 × UInt16) := l.map fun r => r.iphdr.key

/-- The queue between two calls. -/
structure Inv (hist : List Frag) (s : State) : Prop where
  sound : ∀ r ∈ s.reassdatagrams, Sound hist r
  filled : ∀ r ∈ s.reassdatagrams, r.p ≠ []
  keys : (keys s.reassdatagrams).Nodup
  count : s.pbufcount = bufs s.reassdatagrams
  count_le : s.pbufcount ≤ ipReassMaxPbufs
  room : s.reassdatagrams.length ≤ mempNumReassdata

/-- The queue inside a call, with the fragment's datagram at place `i` and possibly still empty. -/
structure InvAt (hist : List Frag) (s : State) (i : Nat) (ipr : Reassdata) : Prop where
  place : s.reassdatagrams[i]? = some ipr
  sound : Sound hist ipr
  others : ∀ r ∈ s.reassdatagrams.eraseIdx i, Sound hist r ∧ r.p ≠ []
  keys : (keys (ipr :: s.reassdatagrams.eraseIdx i)).Nodup
  count : s.pbufcount = clens ipr.p + bufs (s.reassdatagrams.eraseIdx i)
  count_le : s.pbufcount ≤ ipReassMaxPbufs
  room : (s.reassdatagrams.eraseIdx i).length < mempNumReassdata

/-! ## Taking a datagram out and putting it back -/

theorem perm_of_place {l : List Reassdata} (hi : l[i]? = some r) :
    (r :: l.eraseIdx i).Perm l := by
  obtain ⟨hlt, rfl⟩ := List.getElem?_eq_some_iff.mp hi
  exact List.getElem_cons_eraseIdx_perm hlt

theorem bufs_cons (r : Reassdata) (l : List Reassdata) : bufs (r :: l) = clens r.p + bufs l := rfl

theorem bufs_perm {l l' : List Reassdata} (h : l.Perm l') : bufs l = bufs l' :=
  (h.map _).sum_eq

theorem Inv.at (h : Inv hist s) (hi : s.reassdatagrams[i]? = some r) : InvAt hist s i r := by
  have hperm := perm_of_place hi
  refine ⟨hi, h.sound r (List.mem_of_getElem? hi), fun x hx => ?_, ?_, ?_, h.count_le, ?_⟩
  · have hx' := hperm.mem_iff.mp (List.mem_cons_of_mem r hx)
    exact ⟨h.sound x hx', h.filled x hx'⟩
  · exact (hperm.map _).nodup_iff.mpr h.keys
  · rw [← bufs_cons, bufs_perm hperm]
    exact h.count
  · have := hperm.length_eq
    have := h.room
    rw [List.length_cons] at *
    omega

/-- The datagram is taken out, and its buffers with it. -/
theorem InvAt.erase (h : InvAt hist s i ipr) {te : List IpHdr} :
    Inv hist ⟨s.reassdatagrams.eraseIdx i, s.pbufcount - clens ipr.p, te⟩ := by
  refine ⟨fun r hr => (h.others r hr).1, fun r hr => (h.others r hr).2, ?_, ?_, ?_, h.room.le⟩
  · exact (List.nodup_cons.mp h.keys).2
  · have := h.count
    simp only
    omega
  · exact (Nat.sub_le _ _).trans h.count_le

/-- The datagram is put back with other fragments. -/
theorem InvAt.put (h : InvAt hist s i ipr) (hr : Sound hist r) (hne : r.p ≠ [])
    (hkey : r.iphdr.key = ipr.iphdr.key) {n : Nat}
    (hn : n = clens r.p + bufs (s.reassdatagrams.eraseIdx i)) (hle : n ≤ ipReassMaxPbufs)
    {te : List IpHdr} : Inv hist ⟨s.reassdatagrams.set i r, n, te⟩ := by
  obtain ⟨hlt, -⟩ := List.getElem?_eq_some_iff.mp h.place
  have hplace : (s.reassdatagrams.set i r)[i]? = some r := List.getElem?_set_self hlt
  have hperm := perm_of_place hplace
  rw [List.eraseIdx_set_eq] at hperm
  have hall : ∀ x ∈ s.reassdatagrams.set i r, Sound hist x ∧ x.p ≠ [] := by
    intro x hx
    rcases List.mem_cons.mp (hperm.mem_iff.mpr hx) with rfl | hx
    · exact ⟨hr, hne⟩
    · exact h.others x hx
  refine ⟨fun x hx => (hall x hx).1, fun x hx => (hall x hx).2, ?_, ?_, hle, ?_⟩
  · refine (hperm.map _).nodup_iff.mp ?_
    rw [List.map_cons, hkey]
    exact h.keys
  · rw [← bufs_perm hperm]
    exact hn
  · rw [← hperm.length_eq]
    exact h.room

theorem Inv.free (h : Inv hist s) (hi : s.reassdatagrams[i]? = some r) :
    Inv hist (freeCompleteDatagram s i).2 := by
  have hat := h.at hi
  have hcount : (s.pbufcount + 2 ^ 16 - clens r.p) % 2 ^ 16 = s.pbufcount - clens r.p := by
    have := hat.count
    have := hat.count_le
    unfold ipReassMaxPbufs at this
    omega
  unfold freeCompleteDatagram
  rw [hi]
  simp only [hcount]
  exact hat.erase

theorem Inv.shed (h : Inv hist s) (hs : Shed k s s') :
    Inv hist s' ∧ s'.pbufcount ≤ s.pbufcount := by
  induction hs with
  | refl s => exact ⟨h, le_rfl⟩
  | @free s s' i r hi _ _ ih =>
    obtain ⟨hinv, hle⟩ := ih (h.free hi)
    refine ⟨hinv, hle.trans ?_⟩
    have hsub := (List.eraseIdx_sublist s.reassdatagrams i).map fun r => clens r.p
    rw [(h.free hi).count, h.count, (freeCompleteDatagram_eq hi).1]
    exact hsub.sum_le_sum fun _ _ => Nat.zero_le _

/-! ## One fragment -/

theorem Sound.mono {hist' : List Frag} (h : Sound hist r) (hsub : hist ⊆ hist') :
    Sound hist' r where
  ordered := h.ordered
  received q hq := by
    obtain ⟨f, hf, hkey, hq⟩ := h.received q hq
    exact ⟨f, hsub hf, hkey, hq⟩
  header := by
    obtain ⟨f, hf, he⟩ := h.header
    exact ⟨f, hsub hf, he⟩
  first := h.first
  last hl := by
    obtain ⟨f, hf, hrest⟩ := h.last hl
    exact ⟨f, hsub hf, hrest⟩

theorem Inv.mono {hist' : List Frag} (h : Inv hist s) (hsub : hist ⊆ hist') : Inv hist' s :=
  ⟨fun r hr => (h.sound r hr).mono hsub, h.filled, h.keys, h.count, h.count_le, h.room⟩

theorem sound_fresh (hp : p ∈ hist) : Sound hist (fresh p.hdr) where
  ordered := List.Pairwise.nil
  received _ hq := absurd hq List.not_mem_nil
  header := ⟨p, hp, rfl⟩
  first _ hq := absurd hq List.not_mem_nil
  last hl := Bool.noConfusion hl

/-- The header of a received fragment with the same key takes the place of the header. -/
theorem Sound.withHdr (h : Sound hist r) (hp : p ∈ hist) (hkey : p.hdr.key = r.iphdr.key)
    (hoff : p.hdr.offsetBytes = 0) : Sound hist { r with iphdr := p.hdr } where
  ordered := h.ordered
  received q hq := by
    obtain ⟨f, hf, hkey', hq⟩ := h.received q hq
    exact ⟨f, hf, hkey'.trans hkey.symm, hq⟩
  header := ⟨p, hp, rfl⟩
  first _ _ _ := hoff
  last hl := by
    obtain ⟨f, hf, hkey', hrest⟩ := h.last hl
    exact ⟨f, hf, hkey'.trans hkey.symm, hrest⟩

/-- Opening the fragment's datagram. -/
theorem Inv.opened (h : Inv hist s) (hp : p ∈ hist) (ho : Opened p s s' i ipr) :
    InvAt hist s' i ipr ∧ s'.pbufcount = s.pbufcount ∧ ipr.iphdr.key = p.hdr.key ∧
      (p.hdr.offsetBytes = 0 → ipr.iphdr.offsetBytes = 0) := by
  cases ho with
  | fresh hno hroom =>
    refine ⟨⟨rfl, sound_fresh hp, fun r hr => ⟨h.sound r hr, h.filled r hr⟩, ?_, ?_, h.count_le,
      hroom⟩, rfl, rfl, id⟩
    · refine List.nodup_cons.mpr ⟨fun hmem => ?_, h.keys⟩
      obtain ⟨r, hr, hkey⟩ := List.mem_map.mp hmem
      exact hno r hr (matches_iff.mpr hkey)
    · rw [h.count, List.eraseIdx_cons_zero]
      exact (Nat.zero_add _).symm
  | @found i r k hi hr hk =>
    have hat := h.at hi
    rw [matches_iff] at hr
    have hlt : i < s.reassdatagrams.length := (List.getElem?_eq_some_iff.mp hi).1
    have hkey : k.key = r.iphdr.key := by
      rw [hk]
      split_ifs
      · exact hr.symm
      · rfl
    have hsound : Sound hist { r with iphdr := k } := by
      rw [hk]
      split_ifs with hc
      · exact hat.sound.withHdr hp hr.symm hc.1
      · exact hat.sound
    refine ⟨⟨List.getElem?_set_self hlt, hsound, ?_, ?_, ?_, h.count_le, ?_⟩, rfl,
      hkey.trans hr, fun hoff => ?_⟩
    · rw [List.eraseIdx_set_eq]
      exact hat.others
    · rw [List.eraseIdx_set_eq, Reass.keys, List.map_cons, hkey]
      exact hat.keys
    · rw [List.eraseIdx_set_eq]
      exact hat.count
    · rw [List.eraseIdx_set_eq]
      exact hat.room
    · simp only [hk]
      split_ifs with hc
      · exact hoff
      · exact not_not.mp fun hne => hc ⟨hoff, hne⟩

theorem mem_insert {x y : Helper} : x ∈ front ++ y :: back ↔ x = y ∨ x ∈ front ++ back := by
  rw [List.mem_append, List.mem_cons, List.mem_append]
  tauto

theorem clens_insert (x : Helper) : clens (front ++ x :: back) = x.clen + clens (front ++ back) := by
  unfold clens
  rw [List.map_append, List.map_cons, List.map_append, List.sum_append, List.sum_append,
    List.sum_cons]
  omega

/-- The fragment at its place in the queue. -/
theorem Sound.add (h : Sound hist ipr) (hp : p ∈ hist) (hkey : ipr.iphdr.key = p.hdr.key)
    (hoff : p.hdr.offsetBytes = 0 → ipr.iphdr.offsetBytes = 0)
    (hbound : p.hdr.mf = false → p.helper.stop + ipHlen < 2 ^ 16)
    (hplaced : Placed ipr.p p.helper front back) :
    Sound hist (ipr.add p (front ++ p.helper :: back)) := by
  have hmem : ∀ q ∈ front ++ p.helper :: back, q = p.helper ∨ q ∈ ipr.p := by
    intro q hq
    rw [hplaced.split]
    exact mem_insert.mp hq
  refine ⟨?_, ?_, ?_, ?_, ?_⟩
  · rw [add_p]
    exact hplaced.pairwise h.ordered (Nat.le_add_right _ _)
  · rw [add_p, add_iphdr]
    intro q hq
    rcases hmem q hq with rfl | hq
    · exact ⟨p, hp, hkey.symm, rfl⟩
    · exact h.received q hq
  · rw [add_iphdr]
    exact h.header
  · rw [add_p, add_iphdr]
    intro q hq hstart
    rcases hmem q hq with rfl | hq
    · exact hoff hstart
    · exact h.first q hq hstart
  · intro hl
    rw [add_p, add_iphdr]
    unfold Reassdata.add at hl ⊢
    split_ifs at hl ⊢ with hmf
    · obtain ⟨f, hf, hkey', hmf', hfm, hrest⟩ := h.last hl
      rw [hplaced.split] at hfm
      exact ⟨f, hf, hkey', hmf', mem_insert.mpr (Or.inr hfm), hrest⟩
    · have hmf' : p.hdr.mf = false := by simpa using hmf
      exact ⟨p, hp, hkey.symm, hmf', mem_insert.mpr (Or.inl rfl), rfl, hbound hmf'⟩

/-- A datagram that can be handed out, and how. -/
def HandsOut (hist : List Frag) (k : IpHdr) (d : Datagram) : Prop :=
  ∃ r, Sound hist r ∧ r.iphdr.key = k.key ∧ r.lastfrag = true ∧ ChainedFrom 0 r.p ∧
    d = ⟨r.datagramHdr, r.p.flatMap Helper.data⟩

theorem InvAt.reassInto (h : InvAt hist s i ipr) (hplain : p.Plain) (hp : p ∈ hist)
    (hkey : ipr.iphdr.key = p.hdr.key)
    (hoff : p.hdr.offsetBytes = 0 → ipr.iphdr.offsetBytes = 0)
    (hle : s.pbufcount + p.clen ≤ ipReassMaxPbufs) :
    Inv hist (reassInto s i ipr p).2 ∧
      ∀ d, (Reass.reassInto s i ipr p).1 = some d → HandsOut hist p.hdr d := by
  rcases reassInto_cases s i ipr hplain with he | ⟨hbound, front, back, hplaced, hc⟩
  · rw [he]
    refine ⟨?_, fun _ hd => by cases hd⟩
    unfold nullreturnIpr
    split_ifs with hempty
    · -- a datagram opened for a fragment that is dropped
      have herase := @InvAt.erase ipr s i hist h s.timeExceeded
      rw [hempty] at herase
      exact herase
    · have hset : s.reassdatagrams.set i ipr = s.reassdatagrams := by
        obtain ⟨hlt, rfl⟩ := List.getElem?_eq_some_iff.mp h.place
        exact List.set_getElem_self hlt
      have hput := @InvAt.put ipr ipr s i hist h h.sound hempty rfl _ h.count h.count_le
        s.timeExceeded
      rw [hset] at hput
      exact hput
  have hadd := h.sound.add hp hkey hoff hbound hplaced
  have hclens : clens (front ++ p.helper :: back) = p.clen + clens ipr.p := by
    rw [hplaced.split]
    exact clens_insert p.helper
  have hcount := h.count
  have hmod : (s.pbufcount + p.clen) % 2 ^ 16 = s.pbufcount + p.clen := by
    unfold ipReassMaxPbufs at hle
    exact Nat.mod_eq_of_lt (by omega)
  rcases hc with ⟨hlast, hchained, he⟩ | ⟨-, he⟩
  · rw [he]
    refine ⟨?_, fun d hd => ⟨_, hadd, ?_, hlast, ?_, ?_⟩⟩
    · have hcount' : ((s.pbufcount + p.clen) % 2 ^ 16 + 2 ^ 16 -
          clens (front ++ p.helper :: back)) % 2 ^ 16 = s.pbufcount - clens ipr.p := by
        unfold ipReassMaxPbufs at hle
        rw [hmod, hclens]
        omega
      simp only [State.handOut, hcount']
      exact h.erase
    · rw [add_iphdr]
      exact hkey
    · rw [add_p]
      exact hchained
    · rw [add_p]
      exact (Option.some.inj hd).symm
  · rw [he]
    refine ⟨?_, fun _ hd => by cases hd⟩
    simp only [State.enqueue, hmod]
    refine h.put hadd ?_ ?_ ?_ hle
    · rw [add_p]
      simp
    · rw [add_iphdr]
    · rw [add_p, hclens]
      omega

/-- **A call keeps the invariant**, and what it hands out is sound. -/
theorem Inv.ip4Reass (h : Inv hist s) (hp : p ∈ hist) :
    Inv hist (ip4Reass s p).2 ∧ ∀ d, (Reass.ip4Reass s p).1 = some d → HandsOut hist p.hdr d := by
  obtain ⟨s₁, hshed, he | ⟨hplain, hroom, s₂, s₃, i, ipr, hshed₂, ho, he⟩⟩ := ip4Reass_cases s p
  · rw [he]
    exact ⟨(h.shed hshed).1, fun _ hd => by cases hd⟩
  · obtain ⟨h₂, hle⟩ := (h.shed hshed).1.shed hshed₂
    obtain ⟨hat, hcount, hkey, hoff⟩ := h₂.opened hp ho
    rw [he]
    exact hat.reassInto hplain hp hkey hoff (by omega)

/-! ## The timer -/

theorem Inv.tmrLoop (h : Inv hist s) (fuel i : Nat) : Inv hist (tmrLoop fuel i s) := by
  induction fuel generalizing i s with
  | zero => exact h
  | succ fuel ih =>
    rw [Reass.tmrLoop]
    cases hi : s.reassdatagrams[i]? with
    | none => exact h
    | some r =>
      simp only
      have hat := h.at hi
      split_ifs with htimer
      · have hsound : Sound hist { r with timer := r.timer - 1 } :=
          ⟨hat.sound.ordered, hat.sound.received, hat.sound.header, hat.sound.first, hat.sound.last⟩
        exact ih (hat.put hsound (h.filled r (List.mem_of_getElem? hi)) rfl hat.count hat.count_le)
          (i + 1)
      · exact ih (h.free hi) i

/-! ## Runs -/

/-- A fragment comes in, or `ip_reass_tmr` is called. -/
inductive Event
  | frag (p : Frag)
  | tmr

def State.step (s : State) : Event → State
  | .frag p => (Reass.ip4Reass s p).2
  | .tmr => ipReassTmr s

/-- The fragments that came in. -/
def received (es : List Event) : List Frag :=
  es.flatMap fun
    | .frag p => [p]
    | .tmr => []

theorem received_cons (e : Event) (es : List Event) :
    received (e :: es) = received [e] ++ received es := by
  simp [received]

theorem Inv.step (h : Inv hist s) (e : Event) : Inv (hist ++ received [e]) (s.step e) := by
  have hmono : Inv (hist ++ received [e]) s := h.mono (List.subset_append_left _ _)
  cases e with
  | frag p => exact (hmono.ip4Reass (List.mem_append_right _ (by simp [received]))).1
  | tmr => exact hmono.tmrLoop _ _

theorem Inv.run (h : Inv hist s) (es : List Event) :
    Inv (hist ++ received es) (run State.step s es) := by
  induction es generalizing hist s with
  | nil => rwa [received, List.flatMap_nil, List.append_nil]
  | cons e es ih =>
    have hstep := ih (h.step e)
    rw [List.append_assoc, ← received_cons] at hstep
    exact hstep

theorem inv_empty : Inv [] State.empty :=
  ⟨fun _ hr => absurd hr List.not_mem_nil, fun _ hr => absurd hr List.not_mem_nil, List.nodup_nil,
    rfl, Nat.zero_le _, Nat.zero_le _⟩

/-- **The queue keeps within its bounds**, whatever comes in: the buffer count is that of the queued
fragments and at most `IP_REASS_MAX_PBUFS`, there are at most `MEMP_NUM_REASSDATA` datagrams, no two of
one sender with one identification, and each of them holds received fragments of its own, one behind
the other. -/
theorem queue_within_bounds (es : List Event) :
    (run State.step .empty es).pbufcount = bufs (run State.step .empty es).reassdatagrams ∧
      (run State.step .empty es).pbufcount ≤ ipReassMaxPbufs ∧
      (run State.step .empty es).reassdatagrams.length ≤ mempNumReassdata ∧
      (keys (run State.step .empty es).reassdatagrams).Nodup ∧
      ∀ r ∈ (run State.step .empty es).reassdatagrams, r.p ≠ [] ∧ r.p.Pairwise BeforeFrag ∧
        ∀ q ∈ r.p, ∃ f ∈ received es, f.hdr.key = r.iphdr.key ∧ q = f.helper := by
  have h := inv_empty.run es
  rw [List.nil_append] at h
  exact ⟨h.count, h.count_le, h.room, h.keys, fun r hr =>
    ⟨h.filled r hr, (h.sound r hr).ordered, (h.sound r hr).received⟩⟩

/-- What a datagram that is handed out is made of. -/
structure MadeOf (fs : List Frag) (k : IpHdr) (d : Datagram) : Prop where
  /-- The header is that of a first fragment, and the length is where a last fragment ends. -/
  header : ∃ f ∈ fs, ∃ l ∈ fs, f.hdr.key = k.key ∧ f.hdr.offsetBytes = 0 ∧ l.hdr.key = k.key ∧
    l.hdr.mf = false ∧ d.hdr.len.toNat = l.hdr.offsetBytes + l.data.length + ipHlen ∧
    d.hdr.len.toNat ≤ d.data.length + ipHlen ∧
    d.hdr = { f.hdr with len := d.hdr.len, offset := 0, chksum := 0 }
  /-- Each byte is at the place its fragment gives it. -/
  bytes : ∀ j b, d.data[j]? = some b → ∃ f ∈ fs, f.hdr.key = k.key ∧ f.hdr.offsetBytes ≤ j ∧
    f.data[j - f.hdr.offsetBytes]? = some b

theorem Sound.stop_eq (h : Sound hist r) {q : Helper} (hq : q ∈ r.p) :
    q.stop = q.start + q.data.length := by
  obtain ⟨f, -, -, rfl⟩ := h.received q hq
  rfl

theorem HandsOut.madeOf (h : HandsOut hist k d) : MadeOf hist k d := by
  obtain ⟨r, hr, hkey, hlast, hchained, rfl⟩ := h
  have hstop : ∀ q ∈ r.p, q.stop = q.start + q.data.length := fun q => hr.stop_eq
  constructor
  · obtain ⟨f, hf, hfr⟩ := hr.header
    obtain ⟨l, hl, hlkey, hmf, hlmem, hlen, hbound⟩ := hr.last hlast
    -- the queue begins with the first fragment
    have hoff : r.iphdr.offsetBytes = 0 := by
      cases hp : r.p with
      | nil => rw [hp] at hlmem; cases hlmem
      | cons q qs =>
        rw [hp] at hchained
        exact hr.first q (by rw [hp]; exact List.mem_cons_self) hchained.1
    have hlen' : (UInt16.ofNat (r.datagramLen + ipHlen)).toNat = l.helper.stop + ipHlen := by
      rw [hlen, UInt16.toNat_ofNat']
      exact Nat.mod_eq_of_lt hbound
    refine ⟨f, hf, l, hl, by rw [hfr, hkey], by rw [hfr, hoff], hlkey.trans hkey, hmf, hlen', ?_, ?_⟩
    · have hle := hchained.hi_le_length hstop hlmem
      rw [Nat.zero_add] at hle
      exact hlen'.trans_le (Nat.add_le_add_right hle _)
    · rw [hfr]
      rfl
  · intro j b hb
    obtain ⟨q, hq, hlo, -, hget⟩ := hchained.getElem?_flatMap hstop hb
    obtain ⟨f, hf, hfkey, rfl⟩ := hr.received q hq
    rw [Nat.zero_add] at hlo hget
    exact ⟨f, hf, hfkey.trans hkey, hlo, hget⟩

/-- **A datagram is handed out as its fragments came in.** In every run, when `ip4_reass` returns a
datagram, it is made of received fragments with the addresses and the identification of the fragment
that completes it: every byte is at the place that one of them gives it, the header is that of the
first, and the length is where a last one ends. -/
theorem delivered_as_received (es : List Event)
    (h : (Reass.ip4Reass (run State.step .empty es) p).1 = some d) :
    MadeOf (received es ++ [p]) p.hdr d := by
  have hinv := (inv_empty.run es).mono (List.subset_append_left _ [p])
  exact ((hinv.ip4Reass (List.mem_append_right _ (List.mem_singleton_self p))).2 d h).madeOf

/-- The first eight bytes of a datagram of nine, from 1.0.0.10 to 2.0.0.10. -/
def firstOfTwo : Frag where
  hdr := ⟨0x45, 0, 28, 7, 0x2000, 64, 17, 0, 0x0100000A, 0x0200000A⟩
  data := [1, 2, 3, 4, 5, 6, 7, 8]
  clen := 1
  data_length := rfl
  clen_pos := Nat.one_pos

/-- The ninth byte. -/
def secondOfTwo : Frag where
  hdr := ⟨0x45, 0, 21, 7, 1, 64, 17, 0, 0x0100000A, 0x0200000A⟩
  data := [9]
  clen := 1
  data_length := rfl
  clen_pos := Nat.one_pos

theorem delivered_two_fragments :
    MadeOf [secondOfTwo, firstOfTwo] firstOfTwo.hdr
      ⟨⟨0x45, 0, 29, 7, 0, 64, 17, 0, 0x0100000A, 0x0200000A⟩, [1, 2, 3, 4, 5, 6, 7, 8, 9]⟩ :=
  delivered_as_received [.frag secondOfTwo] (by decide)

/-! ## The fragments of one sender -/

/-- The fragments `fs` of the datagram with the header `h` and the bytes `data`, in order. -/
structure Cut (h : IpHdr) (data : List UInt8) (fs : List Frag) : Prop where
  len : h.len.toNat = data.length + ipHlen
  whole : h.offset = 0
  header : ∀ f ∈ fs, { f.hdr with len := h.len, offset := h.offset, chksum := h.chksum } = h
  chained : ChainedFrom 0 (fs.map Frag.helper)
  filled : ∀ f ∈ fs, f.data ≠ []
  data : fs.flatMap Frag.data = data
  mf : ∀ f ∈ fs, f.hdr.mf = false → f ∈ fs.getLast?

variable {h : IpHdr} {data : List UInt8} {fs : List Frag}

theorem Cut.lt (hc : Cut h data fs) {q : Helper} (hq : q ∈ fs.map Frag.helper) :
    q.start < q.stop := by
  obtain ⟨f, hf, rfl⟩ := List.mem_map.mp hq
  exact Nat.lt_add_of_pos_right (List.length_pos_of_ne_nil (hc.filled f hf))

theorem Cut.stop_eq {q : Helper} (hq : q ∈ fs.map Frag.helper) :
    q.stop = q.start + q.data.length := by
  obtain ⟨f, -, rfl⟩ := List.mem_map.mp hq
  rfl

theorem Cut.flatMap (hc : Cut h data fs) : (fs.map Frag.helper).flatMap Helper.data = data := by
  rw [List.flatMap_map, ← hc.data]
  rfl

theorem Cut.getLast (hc : Cut h data fs) {l : Frag} (hl : l ∈ fs) (hmf : l.hdr.mf = false) :
    l.helper ∈ (fs.map Frag.helper).getLast? := by
  rw [List.getLast?_map]
  exact Option.mem_map_of_mem _ (hc.mf l hl hmf)

/-- A queue of fragments of the cut that can be handed out holds all of them. -/
theorem Cut.queue_eq (hc : Cut h data fs) (hown : ∀ f ∈ hist, f.hdr.key = k.key → f ∈ fs)
    (hr : Sound hist r) (hkey : r.iphdr.key = k.key) (hlast : r.lastfrag = true)
    (hchained : ChainedFrom 0 r.p) : r.p = fs.map Frag.helper := by
  have hsub : r.p ⊆ fs.map Frag.helper := by
    intro q hq
    obtain ⟨f, hf, hfkey, rfl⟩ := hr.received q hq
    exact List.mem_map_of_mem (hown f hf (hfkey.trans hkey))
  have hordered := hc.chained.pairwise fun q hq => hc.lt hq
  refine hc.chained.eq_of_sublist (fun q hq => hc.lt hq)
    (sublist_of_ordered hr.ordered hordered hsub) hchained fun q hq => ?_
  -- the last fragment was seen
  obtain ⟨l, hl, hlkey, hmf, hlmem, -⟩ := hr.last hlast
  have hget := hc.getLast (hown l hl (hlkey.trans hkey)) hmf
  rwa [Option.mem_unique hq hget]

/-- **A datagram arrives as it was sent.** In every run in which the fragments received under the key
of `p` are all fragments of one datagram, in any order, any number of times and with any other
fragments and calls of the timer in between, what `ip4_reass` returns for `p` is that datagram. -/
theorem delivered_as_sent (hc : Cut h data fs) (es : List Event)
    (hown : ∀ f ∈ received es ++ [p], f.hdr.key = p.hdr.key → f ∈ fs)
    (hd : (Reass.ip4Reass (run State.step .empty es) p).1 = some d) :
    d = ⟨{ h with chksum := 0 }, data⟩ := by
  have hinv := (inv_empty.run es).mono (List.subset_append_left _ [p])
  rw [List.nil_append] at hinv
  obtain ⟨r, hr, hkey, hlast, hchained, rfl⟩ :=
    (hinv.ip4Reass (List.mem_append_right _ (List.mem_singleton_self p))).2 d hd
  have hqueue := hc.queue_eq hown hr hkey hlast hchained
  obtain ⟨f, hf, hfr⟩ := hr.header
  obtain ⟨l, hl, hlkey, hmf, -, hlen, -⟩ := hr.last hlast
  -- the last fragment ends where the datagram does
  have hstop : l.helper.stop = data.length := by
    have hget := hc.getLast (hown l hl (hlkey.trans hkey)) hmf
    rw [hc.chained.hi_getLast (fun q hq => Cut.stop_eq hq) hget, hc.flatMap, Nat.zero_add]
  have hhdr := hc.header f (hown f hf (by rw [hfr, hkey]))
  rw [hfr] at hhdr
  have hlen' : UInt16.ofNat (r.datagramLen + ipHlen) = h.len := by
    rw [hlen, hstop, ← hc.len, UInt16.ofNat_toNat]
  rw [hqueue, hc.flatMap, Reassdata.datagramHdr, hlen', ← hhdr, hc.whole]

theorem cut_two : Cut ⟨0x45, 0, 29, 7, 0, 64, 17, 0xBEEF, 0x0100000A, 0x0200000A⟩
    [1, 2, 3, 4, 5, 6, 7, 8, 9] [firstOfTwo, secondOfTwo] where
  len := rfl
  whole := rfl
  header := by simp [firstOfTwo, secondOfTwo]
  chained := ⟨rfl, rfl, trivial⟩
  filled := by simp [firstOfTwo, secondOfTwo]
  data := rfl
  mf := by
    intro f hf hmf
    rcases List.mem_pair.mp hf with rfl | rfl
    · exact absurd hmf (by decide)
    · rfl

theorem delivered_as_sent_two :
    (Reass.ip4Reass (run State.step .empty [.frag secondOfTwo, .tmr, .frag secondOfTwo])
      firstOfTwo).1 = some
        ⟨⟨0x45, 0, 29, 7, 0, 64, 17, 0, 0x0100000A, 0x0200000A⟩, [1, 2, 3, 4, 5, 6, 7, 8, 9]⟩ := by
  cases hd : (Reass.ip4Reass (run State.step .empty [.frag secondOfTwo, .tmr, .frag secondOfTwo])
      firstOfTwo).1 with
  | none => exact absurd hd (by decide)
  | some d =>
    rw [delivered_as_sent cut_two _ (by simp [received]) hd]

end Stm32F407.Lwip.Reass
