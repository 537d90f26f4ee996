import Stm32F407.Lib.Spans
import Stm32F407.Lwip.Reass

/-!
# What one call of `ip4_reass` does

The inversion lemmas of the reassembly queue. A call first gives up datagrams other than that of the
fragment (`Shed`), then opens the fragment's own (`Opened`), and then drops the fragment, puts it at its
place in the queue, or hands the datagram out (`reassInto_cases`). The fragment's place is found by
`chainLoop_spec`, and the datagram is complete iff its fragments are chained from 0 on and the last of
them has been seen.
-/

namespace Stm32F407.Lwip.Reass

open Stm32F407.Lib

variable {new q : Helper} {front back qs : List Helper} {prev : Option Nat} {valid v : Bool}

/-- The fragments of a queue follow each other from `e` on. -/
abbrev ChainedFrom (e : Nat) (p : List Helper) : Prop := Chained Helper.start Helper.stop e p

/-- One fragment ends before another begins. -/
abbrev BeforeFrag (a b : Helper) : Prop := Before Helper.start Helper.stop a b

theorem noHoles_iff {e : Nat} : noHoles e qs = true ↔ ChainedFrom e qs := by
  induction qs generalizing e with
  | nil => exact iff_of_true rfl trivial
  | cons q qs ih =>
    rw [noHoles, Bool.and_eq_true, ih, beq_iff_eq, eq_comm]
    exact Iff.rfl

/-! ## The place of a fragment -/

/-- No hole from `prev` on, or between the fragments if nothing is in front. -/
def Linked : Option Nat → List Helper → Prop
  | some e, p => ChainedFrom e p
  | none, p => ∀ q ∈ p.head?, ChainedFrom q.start p

theorem linked_cons : Linked prev (q :: qs) ↔ (∀ e ∈ prev, q.start = e) ∧ ChainedFrom q.stop qs := by
  cases prev with
  | none => simp [Linked, chained_cons]
  | some e => simp [Linked, chained_cons]

theorem all_beq_iff {x : Nat} : prev.all (· == x) = true ↔ ∀ e ∈ prev, x = e := by
  cases prev with
  | none => simp
  | some e => simpa using eq_comm

/-- **The loop finds the place of a fragment**: behind what ends before it begins, and in front of the
first that begins after it ends. -/
theorem chainLoop_spec (h : chainLoop new prev valid qs = some (front, back, v)) :
    qs = front ++ back ∧ (∀ x ∈ front, BeforeFrag x new) ∧
      (∀ y ∈ back.head?, BeforeFrag new y) ∧
      (v = true ↔ valid = true ∧ Linked prev (front ++ [new])) := by
  induction qs generalizing prev valid front v with
  | nil =>
    obtain ⟨rfl, rfl, rfl⟩ : [] = front ∧ [] = back ∧
        (valid && prev.all (· == new.start)) = v := by simpa [chainLoop] using h
    refine ⟨rfl, by simp, by simp, ?_⟩
    rw [List.nil_append, linked_cons, Bool.and_eq_true, all_beq_iff]
    exact and_congr_right fun _ => (and_iff_left trivial).symm
  | cons q qs ih =>
    rw [chainLoop] at h
    split_ifs at h with hlt hover heq hin
    · -- the fragment goes in front of this one
      obtain ⟨rfl, rfl, rfl⟩ : [] = front ∧ q :: qs = back ∧
          (valid && prev.all (· == new.start)) = v := by simpa using h
      rw [not_or, Nat.not_lt] at hover
      refine ⟨rfl, by simp, by simpa using ⟨hlt, hover.2⟩, ?_⟩
      rw [List.nil_append, linked_cons, Bool.and_eq_true, all_beq_iff]
      exact and_congr_right fun _ => (and_iff_left trivial).symm
    · obtain ⟨⟨front', back', v'⟩, hr, he⟩ := Option.map_eq_some_iff.mp h
      obtain ⟨rfl, rfl, rfl⟩ : q :: front' = front ∧ back' = back ∧ v' = v := by simpa using he
      obtain ⟨rfl, hfront, hback, hv⟩ := ih hr
      refine ⟨rfl, List.forall_mem_cons.mpr ⟨⟨by omega, by omega⟩, hfront⟩, hback, ?_⟩
      rw [hv, Bool.and_eq_true, all_beq_iff, List.cons_append, linked_cons, and_assoc]
      exact Iff.rfl

/-- The checks of the queue in front of the new fragment, of its head and of what is behind it are
that there is no hole from 0 on. -/
theorem chained_zero_iff (hv : v = true ↔ true = true ∧ Linked none (front ++ [new])) :
    v = true ∧ (front ++ new :: back).head?.map Helper.start = some 0 ∧
      noHoles new.stop back = true ↔ ChainedFrom 0 (front ++ new :: back) := by
  unfold ChainedFrom
  rw [hv, noHoles_iff, chained_split]
  cases front with
  | nil =>
    simp only [List.nil_append, List.head?_cons, Option.map_some, Option.some.injEq, linked_cons,
      chained_cons]
    simp [Chained]
  | cons q front =>
    simp only [List.cons_append, List.head?_cons, Option.map_some, Option.some.injEq, linked_cons,
      chained_cons]
    simp only [Option.not_mem_none, IsEmpty.forall_iff, implies_true, true_and]
    tauto

/-- A fragment that has its place in the queue. -/
structure Placed (qs : List Helper) (new : Helper) (front back : List Helper) : Prop where
  split : qs = front ++ back
  front : ∀ x ∈ front, BeforeFrag x new
  back : ∀ y ∈ back.head?, BeforeFrag new y

/-- The queue stays in order. -/
theorem Placed.pairwise (h : Placed qs new front back) (hqs : qs.Pairwise BeforeFrag)
    (hle : new.start ≤ new.stop) : (front ++ new :: back).Pairwise BeforeFrag := by
  rw [h.split, List.pairwise_append] at hqs
  obtain ⟨hf, hb, hfb⟩ := hqs
  have hnew : ∀ y ∈ back, BeforeFrag new y := by
    intro y hy
    cases back with
    | nil => cases hy
    | cons z zs =>
      have hz := h.back z rfl
      rcases List.mem_cons.mp hy with rfl | hy
      · exact hz
      · have hzy := (List.pairwise_cons.mp hb).1 y hy
        exact ⟨hz.1.trans hzy.1, hz.2.trans hzy.1.le⟩
  refine List.pairwise_append.mpr ⟨hf, List.pairwise_cons.mpr ⟨hnew, hb⟩, fun x hx y hy => ?_⟩
  rcases List.mem_cons.mp hy with rfl | hy
  · exact h.front x hx
  · exact hfb x hx y hy

/-- What the fragment becomes in the queue. -/
def Frag.helper (p : Frag) : Helper :=
  ⟨p.hdr.offsetBytes, p.hdr.offsetBytes + p.data.length, p.data, p.clen⟩

/-- The fragments `ip4_reass` looks at: no options in the header, and not shorter than it. -/
def Frag.Plain (p : Frag) : Prop := p.hdr.hlBytes = ipHlen ∧ ipHlen ≤ p.hdr.len.toNat

instance Frag.Plain.instDecidable (p : Frag) : Decidable p.Plain :=
  inferInstanceAs (Decidable (_ ∧ _))

variable {r : Reassdata} {p : Frag} {s s' s₁ s₂ : State} {i : Nat} {k : IpHdr}

theorem Frag.Plain.len_eq (hp : p.Plain) : p.hdr.len.toNat - p.hdr.hlBytes = p.data.length := by
  rw [hp.1, p.data_length]

theorem IpHdr.offsetBytes_lt (h : IpHdr) : h.offsetBytes < 2 ^ 16 := by
  unfold IpHdr.offsetBytes
  omega

/-- **What becomes of the fragment**: it is dropped, or it is at its place in the queue, and then the
datagram is complete iff its last fragment was seen and there is no hole from 0 on. -/
theorem chainFrag_cases (ipr : Reassdata) (isLast : Bool) (hp : p.Plain) :
    (∃ q, chainFragIntoDatagramAndValidate ipr p isLast = (.pbufDropped, q)) ∨
      p.helper.stop < 2 ^ 16 ∧ ∃ v front back, Placed ipr.p p.helper front back ∧
        chainFragIntoDatagramAndValidate ipr p isLast = (v, front ++ p.helper :: back) ∧
        v ≠ .pbufDropped ∧ (v = .telegramFinished ↔
          (isLast = true ∨ ipr.lastfrag = true) ∧ ChainedFrom 0 (front ++ p.helper :: back)) := by
  have hlen : p.data.length < 2 ^ 16 := by
    have := p.hdr.len.toNat_lt
    have := p.data_length
    omega
  have hoff := p.hdr.offsetBytes_lt
  unfold chainFragIntoDatagramAndValidate
  simp only [hp.len_eq]
  rw [if_neg (by rw [hp.1]; exact Nat.not_lt.mpr hp.2)]
  by_cases hover : (p.hdr.offsetBytes + p.data.length) % 2 ^ 16 < p.hdr.offsetBytes
  · rw [if_pos hover]
    exact Or.inl ⟨_, rfl⟩
  rw [if_neg hover]
  have hstop : p.hdr.offsetBytes + p.data.length < 2 ^ 16 := by omega
  rw [Nat.mod_eq_of_lt hstop, show (⟨p.hdr.offsetBytes, p.hdr.offsetBytes + p.data.length, p.data,
    p.clen⟩ : Helper) = p.helper from rfl]
  cases hloop : chainLoop p.helper none true ipr.p with
  | none => exact Or.inl ⟨_, rfl⟩
  | some r =>
    obtain ⟨front, back, valid⟩ := r
    obtain ⟨hsplit, hfront, hback, hv⟩ := chainLoop_spec hloop
    have hcond : ((isLast || ipr.lastfrag) && valid &&
        ((front ++ p.helper :: back).head?.map Helper.start == some 0) &&
          noHoles p.helper.stop back) = true ↔
        (isLast = true ∨ ipr.lastfrag = true) ∧ ChainedFrom 0 (front ++ p.helper :: back) := by
      rw [Bool.and_eq_true, Bool.and_eq_true, Bool.and_eq_true, Bool.or_eq_true, beq_iff_eq,
        and_assoc, and_assoc, chained_zero_iff hv]
    refine Or.inr ⟨hstop, ?_⟩
    simp only
    split_ifs with hc
    · exact ⟨_, front, back, ⟨hsplit, hfront, hback⟩, rfl, by simp,
        iff_of_true rfl (hcond.mp hc)⟩
    · exact ⟨_, front, back, ⟨hsplit, hfront, hback⟩, rfl, by simp,
        iff_of_false (by simp) fun hj => hc (hcond.mpr hj)⟩

/-- The datagram with the queue `q`, in which the fragment `p` is new. -/
def Reassdata.add (ipr : Reassdata) (p : Frag) (q : List Helper) : Reassdata :=
  if p.hdr.mf then { ipr with p := q }
  else { ipr with p := q, datagramLen := p.helper.stop, lastfrag := true }

theorem add_p (ipr : Reassdata) (p : Frag) (q : List Helper) : (ipr.add p q).p = q := by
  unfold Reassdata.add
  split_ifs <;> rfl

theorem add_iphdr (ipr : Reassdata) (p : Frag) (q : List Helper) :
    (ipr.add p q).iphdr = ipr.iphdr := by
  unfold Reassdata.add
  split_ifs <;> rfl

theorem add_lastfrag (ipr : Reassdata) (p : Frag) (q : List Helper) :
    (ipr.add p q).lastfrag = true ↔ p.hdr.mf = false ∨ ipr.lastfrag = true := by
  unfold Reassdata.add
  split_ifs with hmf
  · simp [hmf]
  · exact iff_of_true rfl (Or.inl (by simpa using hmf))

/-- The state with the datagram at place `i` handed out. -/
def State.handOut (s : State) (i : Nat) (p : Frag) (q : List Helper) : State :=
  { s with
    reassdatagrams := s.reassdatagrams.eraseIdx i
    pbufcount := ((s.pbufcount + p.clen) % 2 ^ 16 + 2 ^ 16 - clens q) % 2 ^ 16 }

/-- The state with the fragment in the queue of the datagram at place `i`. -/
def State.enqueue (s : State) (i : Nat) (p : Frag) (ipr : Reassdata) : State :=
  { s with
    reassdatagrams := s.reassdatagrams.set i ipr
    pbufcount := (s.pbufcount + p.clen) % 2 ^ 16 }

/-- **What a call does in the fragment's datagram.** -/
theorem reassInto_cases (s : State) (i : Nat) (ipr : Reassdata) (hp : p.Plain) :
    reassInto s i ipr p = (none, nullreturnIpr s i ipr) ∨
      (p.hdr.mf = false → p.helper.stop + ipHlen < 2 ^ 16) ∧
        ∃ front back, Placed ipr.p p.helper front back ∧
        ((ipr.add p (front ++ p.helper :: back)).lastfrag = true ∧
            ChainedFrom 0 (front ++ p.helper :: back) ∧
            reassInto s i ipr p =
              (some ⟨(ipr.add p (front ++ p.helper :: back)).datagramHdr,
                (front ++ p.helper :: back).flatMap Helper.data⟩,
              s.handOut i p (front ++ p.helper :: back)) ∨
          ¬ ((ipr.add p (front ++ p.helper :: back)).lastfrag = true ∧
            ChainedFrom 0 (front ++ p.helper :: back)) ∧
            reassInto s i ipr p =
              (none, s.enqueue i p (ipr.add p (front ++ p.helper :: back)))) := by
  unfold reassInto
  simp only [hp.len_eq]
  by_cases hlen : (!p.hdr.mf) = true ∧
      ((p.hdr.offsetBytes + p.data.length) % 2 ^ 16 < p.hdr.offsetBytes ∨
        0xffff - ipHlen < (p.hdr.offsetBytes + p.data.length) % 2 ^ 16)
  · rw [if_pos hlen]
    exact Or.inl rfl
  rw [if_neg hlen]
  rcases chainFrag_cases ipr (!p.hdr.mf) hp with
    ⟨q, hq⟩ | ⟨hstop, v, front, back, hplaced, hv, hne, hfin⟩
  · rw [hq]
    exact Or.inl rfl
  · rw [hv]
    have hbound : p.hdr.mf = false → p.helper.stop + ipHlen < 2 ^ 16 := by
      intro hmf
      have hmod : (p.hdr.offsetBytes + p.data.length) % 2 ^ 16 = p.helper.stop :=
        Nat.mod_eq_of_lt hstop
      have hle := (not_or.mp (not_and.mp hlen (by rw [hmf]; rfl))).2
      unfold ipHlen at hle ⊢
      omega
    refine Or.inr ⟨hbound, front, back, hplaced, ?_⟩
    have hadd : (if (!p.hdr.mf) = true then
        { ipr with
          p := front ++ p.helper :: back
          datagramLen := (p.hdr.offsetBytes + p.data.length) % 2 ^ 16
          lastfrag := true }
        else { ipr with p := front ++ p.helper :: back }) =
        ipr.add p (front ++ p.helper :: back) := by
      have hmod : (p.hdr.offsetBytes + p.data.length) % 2 ^ 16 = p.helper.stop :=
        Nat.mod_eq_of_lt hstop
      rw [hmod, Reassdata.add]
      cases p.hdr.mf <;> rfl
    rw [add_lastfrag]
    rw [Bool.not_eq_true'] at hfin
    cases v with
    | pbufDropped => exact absurd rfl hne
    | telegramFinished =>
      obtain ⟨hlast, hchained⟩ := hfin.mp rfl
      refine Or.inl ⟨hlast, hchained, ?_⟩
      simp only [if_true, hadd]
      rfl
    | pbufQueued =>
      refine Or.inr ⟨fun hc => Validate.noConfusion (hfin.mpr hc), ?_⟩
      simp only [reduceCtorEq, if_false, hadd]
      rfl

/-! ## Giving up datagrams -/

/-- The state after giving up datagrams, none of them that of `k`. -/
inductive Shed (k : IpHdr) : State → State → Prop
  | refl (s : State) : Shed k s s
  | free {s s' : State} {i : Nat} {r : Reassdata} (hi : s.reassdatagrams[i]? = some r)
      (hr : ¬ Matches r.iphdr k) (hs : Shed k (freeCompleteDatagram s i).2 s') : Shed k s s'

/-- What the search finds is at its place and not the datagram of `k`. -/
theorem findOldest_spec {j others t : Nat} {oldest : Option (Nat × Nat)} {rs : List Reassdata}
    (h : (findOldest k j oldest others rs).1 = some (i, t)) :
    oldest = some (i, t) ∨ ∃ m r, i = j + m ∧ rs[m]? = some r ∧ ¬ Matches r.iphdr k := by
  induction rs generalizing j oldest others with
  | nil => exact Or.inl h
  | cons r rs ih =>
    rw [findOldest] at h
    split_ifs at h with hm
    · rcases ih h with ho | ⟨m, r', rfl, hr, hn⟩
      · exact Or.inl ho
      · exact Or.inr ⟨m + 1, r', by omega, by simpa using hr, hn⟩
    · rcases ih h with ho | ⟨m, r', rfl, hr, hn⟩
      · have hsame : oldest = some (i, t) ∨ (j, r.timer) = (i, t) := by
          have ho' := Option.some.inj ho
          unfold older at ho'
          split at ho'
          · exact Or.inr ho'
          · split_ifs at ho'
            · exact Or.inr ho'
            · exact Or.inl (congrArg some ho')
        rcases hsame with hs | hs
        · exact Or.inl hs
        · obtain ⟨rfl, rfl⟩ := Prod.mk.inj hs
          exact Or.inr ⟨0, r, rfl, rfl, hm⟩
      · exact Or.inr ⟨m + 1, r', by omega, by simpa using hr, hn⟩

theorem removeOldest_shed (k : IpHdr) (needed fuel freed : Nat) (s : State) :
    Shed k s (removeOldest k needed fuel freed s).2 := by
  induction fuel generalizing freed s with
  | zero => exact Shed.refl s
  | succ fuel ih =>
    rw [removeOldest]
    cases hf : findOldest k 0 none 0 s.reassdatagrams with
    | mk oldest others =>
      cases oldest with
      | none => exact Shed.refl s
      | some it =>
        obtain ⟨i, t⟩ := it
        have hspec := @findOldest_spec i k 0 0 t none s.reassdatagrams (by rw [hf])
        obtain hc | ⟨m, r, rfl, hr, hn⟩ := hspec
        · cases hc
        · rw [Nat.zero_add] at *
          simp only
          refine Shed.free hr hn ?_
          split_ifs
          · exact ih _ _
          · exact Shed.refl _

theorem Shed.trans (h : Shed k s s₁) (h' : Shed k s₁ s₂) : Shed k s s₂ := by
  induction h with
  | refl s => exact h'
  | free hi hr _ ih => exact Shed.free hi hr (ih h')

theorem freeCompleteDatagram_eq (hi : s.reassdatagrams[i]? = some r) :
    (freeCompleteDatagram s i).2.reassdatagrams = s.reassdatagrams.eraseIdx i ∧
      (freeCompleteDatagram s i).2.pbufcount = (s.pbufcount + 2 ^ 16 - clens r.p) % 2 ^ 16 := by
  unfold freeCompleteDatagram
  rw [hi]
  exact ⟨rfl, rfl⟩

/-- What is left was there before. -/
theorem Shed.sublist (h : Shed k s s') : s'.reassdatagrams.Sublist s.reassdatagrams := by
  induction h with
  | refl s => exact List.Sublist.refl _
  | free hi _ _ ih =>
    rw [(freeCompleteDatagram_eq hi).1] at ih
    exact ih.trans (List.eraseIdx_sublist _ _)

/-! ## Opening the fragment's datagram -/

/-- A datagram without fragments. -/
def fresh (k : IpHdr) : Reassdata := ⟨k, [], 0, false, ipReassMaxage⟩

/-- The fragment's datagram is at place `i`: a new one, or the one that was there, with the header of
the first fragment. -/
inductive Opened (p : Frag) (s : State) : State → Nat → Reassdata → Prop
  | fresh (hno : ∀ r ∈ s.reassdatagrams, ¬ Matches r.iphdr p.hdr)
      (hroom : s.reassdatagrams.length < mempNumReassdata) :
      Opened p s { s with reassdatagrams := fresh p.hdr :: s.reassdatagrams } 0 (fresh p.hdr)
  | found {i : Nat} {r : Reassdata} {k : IpHdr} (hi : s.reassdatagrams[i]? = some r)
      (hr : Matches r.iphdr p.hdr)
      (hk : k = if p.hdr.offsetBytes = 0 ∧ r.iphdr.offsetBytes ≠ 0 then p.hdr else r.iphdr) :
      Opened p s { s with reassdatagrams := s.reassdatagrams.set i { r with iphdr := k } } i
        { r with iphdr := k }

theorem enqueueNewDatagram_cases (s : State) (p : Frag) :
    ∃ s₂, Shed p.hdr s s₂ ∧ (ipReassEnqueueNewDatagram s p.hdr p.clen = (false, s₂) ∨
      s₂.reassdatagrams.length < mempNumReassdata ∧ ipReassEnqueueNewDatagram s p.hdr p.clen =
        (true, { s₂ with reassdatagrams := fresh p.hdr :: s₂.reassdatagrams })) := by
  unfold ipReassEnqueueNewDatagram
  by_cases hroom : s.reassdatagrams.length < mempNumReassdata
  · simp only [if_pos hroom]
    exact ⟨s, Shed.refl s, Or.inr ⟨hroom, rfl⟩⟩
  · simp only [if_neg hroom]
    have hshed : Shed p.hdr s (ipReassRemoveOldestDatagram s p.hdr p.clen).2 :=
      removeOldest_shed _ _ _ _ _
    refine ⟨_, hshed, ?_⟩
    split_ifs with hroom'
    · exact Or.inr ⟨hroom'.2, rfl⟩
    · exact Or.inl rfl

/-- **What a call of `ip4_reass` does**: datagrams are given up; then the fragment is dropped, or it
comes to its datagram. -/
theorem ip4Reass_cases (s : State) (p : Frag) :
    ∃ s₁, Shed p.hdr s s₁ ∧ (ip4Reass s p = (none, s₁) ∨
      p.Plain ∧ s₁.pbufcount + p.clen ≤ ipReassMaxPbufs ∧
        ∃ s₂ s₃ i ipr, Shed p.hdr s₁ s₂ ∧ Opened p s₂ s₃ i ipr ∧
          ip4Reass s p = reassInto s₃ i ipr p) := by
  unfold ip4Reass
  by_cases hhl : p.hdr.hlBytes ≠ ipHlen
  · rw [if_pos hhl]
    exact ⟨s, Shed.refl s, Or.inl rfl⟩
  rw [if_neg hhl]
  by_cases hlen : p.hdr.len.toNat < p.hdr.hlBytes
  · rw [if_pos hlen]
    exact ⟨s, Shed.refl s, Or.inl rfl⟩
  rw [if_neg hlen]
  have hplain : p.Plain := by
    rw [not_not] at hhl
    exact ⟨hhl, by omega⟩
  -- room for the buffers of the fragment
  have hshed : Shed p.hdr s (if ipReassMaxPbufs < s.pbufcount + p.clen then
      ipReassRemoveOldestDatagram s p.hdr p.clen else (1, s)).2 := by
    split_ifs
    · exact removeOldest_shed _ _ _ _ _
    · exact Shed.refl s
  generalize (if ipReassMaxPbufs < s.pbufcount + p.clen then
    ipReassRemoveOldestDatagram s p.hdr p.clen else (1, s)) = f at hshed
  obtain ⟨freed, s₁⟩ := f
  simp only at hshed ⊢
  by_cases hfull : freed = 0 ∨ ipReassMaxPbufs < s₁.pbufcount + p.clen
  · rw [if_pos hfull]
    exact ⟨s₁, hshed, Or.inl rfl⟩
  rw [if_neg hfull]
  rw [not_or, Nat.not_lt] at hfull
  cases hidx : s₁.reassdatagrams.findIdx? fun r => Matches r.iphdr p.hdr with
  | none =>
    -- a new datagram, after giving up others if there is no place
    have hno : ∀ r ∈ s₁.reassdatagrams, ¬ Matches r.iphdr p.hdr := by
      intro r hr
      simpa using List.findIdx?_eq_none_iff.mp hidx r hr
    obtain ⟨s₂, hshed₂, he | ⟨hroom, he⟩⟩ := enqueueNewDatagram_cases s₁ p
    · refine ⟨s₂, hshed.trans hshed₂, Or.inl ?_⟩
      simp only [he]
    · refine ⟨s₁, hshed, Or.inr ⟨hplain, hfull.2, s₂, _, 0, _, hshed₂,
        Opened.fresh (fun r hr => hno r (hshed₂.sublist.subset hr)) hroom, ?_⟩⟩
      simp only [he]
  | some i =>
    obtain ⟨hi, hmatch, -⟩ := List.findIdx?_eq_some_iff_getElem.mp hidx
    have hget : s₁.reassdatagrams[i]? = some s₁.reassdatagrams[i] := List.getElem?_eq_getElem hi
    refine ⟨s₁, hshed, Or.inr ⟨hplain, hfull.2, s₁, _, i, _, Shed.refl s₁,
      Opened.found hget (by simpa using hmatch) rfl, ?_⟩⟩
    simp only [hget]
    split_ifs <;> rfl

end Stm32F407.Lwip.Reass
