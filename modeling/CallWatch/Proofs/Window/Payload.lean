import CallWatch.Proofs.Session.Recall
import CallWatch.Proofs.Session.Tapped
import CallWatch.Proofs.Traffic.Volume
import CallWatch.Proofs.Window.Sums

namespace CallWatch.Session

variable {s : Session} {history : List Deed}

theorem ledgerOf_of_place {source : Source} (h : s.place source = .tap) :
    s.ledgerOf source = s.tap.ledger := by
  cases source with
  | tap => rfl
  | side =>
      have hside : s.side = none := by
        rw [place] at h
        split at h
        · cases h
        · rename_i hnone
          exact Option.not_isSome_iff_eq_none.mp hnone
      rw [ledgerOf, hside]
      rfl

-- On a tap that captures traffic, the packets that an open window shows carry exactly the
-- bytes that its totals count, for the same threads and endpoints and under any grouping
-- and threshold. The tap must not have been reset since the window began, and no counter
-- may have reached its limit.
theorem volume_packets_eq_totals (h : Tapped s history) {name : String} {number : Nat}
    {w : Watched} (hw : s.guardedWindow? name = some (number, w))
    (hopen : w.window.closedAt = none) (htap : s.place w.source = .tap)
    (hclear : .changed .tap .clear ∉ since number history)
    (hforgot : .forgot ∉ since number history)
    (scope : ThreadScope) (filter : EndpointFilter) (detail : Detail) (direction : Direction)
    (hkeys : ∀ key amount, s.tap.ledger.amountOf? key = some amount →
      amount.read direction.counter < Count.limit)
    (htotal : (w.window.totals s.tap.ledger scope.whole filter).read direction.counter <
      Count.limit) :
    ∃ streams total,
      (s.perform (.watching name (.packets scope filter detail))).2.1 = .streams streams ∧
        (s.perform (.watching name (.totals scope filter))).2.1 = .total total ∧
        Traffic.volume direction streams = total.read direction.counter := by
  have hfollows := h.reached.follows
  have hrecalls := hfollows.recalls number w (s.guardedWindow?_eq_some_iff.mp hw).2
  have hledger := hfollows.ledger w.source
  have htraffic := hfollows.traffic
  rw [htap] at hrecalls
  rw [htap, ledgerOf_of_place htap, ← before_append_since number history, recordings_append,
    if_neg hclear] at hledger
  rw [← before_append_since number history, captures_append, if_neg hforgot] at htraffic
  have hlimit : ∀ e ∈ recordings .tap (since number history),
      e.2.read direction.counter < Count.limit := fun e he =>
    Window.read_lt_limit hledger hkeys (List.mem_append_right _ he)
  refine ⟨w.window.packets s.tap.traffic scope filter detail,
    w.window.totals (s.ledgerOf w.source) scope filter, ?_, ?_, ?_⟩
  · rw [reply_watching hw, watch, Window.whenOpen, hopen]
    rfl
  · rw [reply_watching hw, watch, Window.whenOpen, hopen]
    rfl
  · calc Traffic.volume direction (w.window.packets s.tap.traffic scope filter detail)
        = Packet.volume direction (((captures (since number history)).filter
            (w.window.shows scope filter ·.1)).map (·.2)) :=
          Traffic.volume_packets direction htraffic hrecalls.countOf
            (w.window.respects_shows scope filter) detail w.window.mergeWithin
      _ = Tally.readSum direction.counter (((recordings .tap (since number history)).filter
            (w.window.shows scope filter ·.1)).map (·.2)) :=
          (h.inStepSince number hclear hforgot).volume_eq _ hlimit
      _ = Tally.readSum direction.counter
            ((w.window.gains s.tap.ledger scope filter).map (·.2)) :=
          (Window.readSum_gains hledger hrecalls hkeys scope filter).symm
      _ = (w.window.totals (s.ledgerOf w.source) scope filter).read direction.counter := by
          rw [ledgerOf_of_place htap, Window.read_totals htotal]

-- Another thread sends before and after the window begins, and sends nothing once. The two
-- bytes from after the beginning are shown and counted.
theorem volume_packets_eq_totals_elsewhere :
    let socket : Socket := ⟨"db", 5432, 1, none⟩
    let origin : Origin := ⟨some ⟨8, none, none⟩, none⟩
    let config := { Config.standard with captureTraffic := true }
    let earlier :=
      ((start config none none).perform (.recording (.transfer socket origin .sent 0 [1, 2, 3]))).1
    let opened := (earlier.perform (.openWindow "spy" 7 none)).1
    let sent := (opened.perform (.recording (.transfer socket origin .sent 9 [4, 5]))).1
    let s := (sent.perform (.recording (.transfer socket origin .sent 4 []))).1
    ∃ streams total,
      (s.perform (.watching "spy" (.packets .others .every .full))).2.1 = .streams streams ∧
        (s.perform (.watching "spy" (.totals .others .every))).2.1 = .total total ∧
        Traffic.volume .sent streams = total.read .bytesUp ∧
        Traffic.volume .sent streams = 2 := by
  intro socket origin config earlier opened sent s
  let key : Key := ⟨.socket socket, origin⟩
  let old := [(key, Tap.transferTally .sent 3)]
  let later := [(key, Tap.transferTally .sent 2), (key, Tap.transferTally .sent 0)]
  have h : Tapped s [.changed .tap (.record key (Tap.transferTally .sent 3)),
      .captured key (.single .sent 0 [1, 2, 3]), .opened 0 7 .tap,
      .changed .tap (.record key (Tap.transferTally .sent 2)),
      .captured key (.single .sent 9 [4, 5]),
      .changed .tap (.record key (Tap.transferTally .sent 0))] := by
    refine .act (.act (.act (.act (.start config rfl none none) _ ?_) _ ?_) _ ?_) _ ?_ <;>
      rintro _ ⟨⟩ <;> rfl
  let w : Watched := ⟨.openOn config 7 (earlier.ledgerOf .side) earlier.tap.traffic, .side⟩
  have hw : s.guardedWindow? "spy" = some (0, w) := rfl
  have hledger : s.tap.ledger.Keeps (old ++ later) := h.reached.follows.ledger .tap
  have hrecalls := h.reached.follows.recalls 0 w rfl
  have hsum : Tally.readSum .bytesUp ((old ++ later).map (·.2)) < Count.limit := by decide
  obtain ⟨streams, total, hstreams, htotal, hvolume⟩ :=
    volume_packets_eq_totals h hw rfl rfl (by decide) (by decide) .others .every .full .sent
      (Window.amountOf?_lt_limit hledger hsum)
      (Window.totals_lt_limit hledger hrecalls hsum .others .every)
  have hreply : .total (w.window.totals s.tap.ledger .others .every) = Reply.total total :=
    (reply_watching hw _).symm.trans htotal
  refine ⟨streams, total, hstreams, htotal, hvolume, ?_⟩
  rw [hvolume, ← Reply.total.inj hreply, Window.totals_eq_observed hledger hrecalls]
  decide

end CallWatch.Session
