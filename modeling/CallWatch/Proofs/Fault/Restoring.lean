import CallWatch.Proofs.Fault.Discovery
import CallWatch.Proofs.Json.Documents

namespace CallWatch.Fault

namespace Rules

variable {π : Type} [DecidableEq π]

-- Rules about different patterns, entered one after the other, stand as they came.
theorem foldl_set_eq_append {a b : Rules π} (h : Distinct (a ++ b)) :
    b.foldl (fun rules r => rules.set r.1 r.2) a = a ++ b := by
  induction b generalizing a with
  | nil => rw [List.foldl_nil, List.append_nil]
  | cons r rest ih =>
      have hnew : r.1 ∉ a.patterns := by
        intro hmem
        rw [Distinct, patterns_append] at h
        exact (List.nodup_append.mp h).2.2 r.1 hmem r.1 List.mem_cons_self rfl
      rw [List.foldl_cons, set_of_not_mem hnew, ih (by rwa [List.append_assoc]),
        List.append_assoc]
      rfl

end Rules

namespace Table

-- The document of a table restores the table.
theorem enter_ofTable (persistent : Bool) {t : Table} (h : t.Distinct) :
    (Document.ofTable persistent t).enter .empty = t := by
  have hsockets := Rules.foldl_set_eq_append (a := []) h.1
  have hsources := Rules.foldl_set_eq_append (a := []) h.2
  rw [Document.enter, Document.ofTable, List.foldl_map, List.foldl_map]
  exact congrArg₂ Table.mk hsockets hsources

end Table

namespace Registry

-- Rules are set and targets are looked up without a scope.
inductive Plain : Operation → Prop where
  | setSocket (pattern : SocketPattern) (status : Status) : Plain (.setSocket pattern status)
  | setSource (pattern : SourcePattern) (status : Status) : Plain (.setSource pattern status)
  | resolve (target : Destination) : Plain (.resolve target none)

-- What is asked then depends on the global rules alone.
theorem Plain.perform_congr {op : Operation} (hop : Plain op) {a b : Registry}
    (h : a.rules = b.rules) :
    (a.perform op).2.1 = (b.perform op).2.1 ∧ (a.perform op).1.rules = (b.perform op).1.rules := by
  cases hop with
  | setSocket pattern status =>
      obtain ⟨k, hk⟩ := a.exists_perform_setSocket_eq pattern status
      obtain ⟨l, hl⟩ := b.exists_perform_setSocket_eq pattern status
      refine ⟨rfl, ?_⟩
      rw [hk, hl, h]
  | setSource pattern status =>
      obtain ⟨k, hk⟩ := a.exists_perform_setSource_eq pattern status
      obtain ⟨l, hl⟩ := b.exists_perform_setSource_eq pattern status
      refine ⟨rfl, ?_⟩
      rw [hk, hl, h]
  | resolve target =>
      have ha : (a.consulted? none).bind (·.find? target) = none := by simp
      have hb : (b.consulted? none).bind (·.find? target) = none := by simp
      obtain ⟨k, hk⟩ := exists_resolve_eq ha
      obtain ⟨l, hl⟩ := exists_resolve_eq hb
      rw [perform_resolve, perform_resolve, hk, hl, resolve_of_not_scoped ha,
        resolve_of_not_scoped hb, h]
      exact ⟨rfl, rfl⟩

theorem run_congr_of_plain {ops : List Operation} (hops : ∀ op ∈ ops, Plain op) {a b : Registry}
    (h : a.rules = b.rules) :
    a.answers ops = b.answers ops ∧ (a.run ops).rules = (b.run ops).rules := by
  induction ops generalizing a b with
  | nil => exact ⟨rfl, h⟩
  | cons op rest ih =>
      obtain ⟨hop, hrest⟩ := List.forall_mem_cons.mp hops
      obtain ⟨hanswer, hrules⟩ := hop.perform_congr h
      obtain ⟨hanswers, hrun⟩ := ih hrest hrules
      exact ⟨congrArg₂ List.cons hanswer hanswers, hrun⟩

theorem perform_read_toText (r : Registry) (d : Document) :
    r.perform (.read (Json.Format.document.toText d)) = (r.load d, .done, .none) := by
  simp only [perform, Json.Format.ofText_toText (Json.Format.reads_document d)]

-- What was written for a registry is read back by one that has no rules yet, and from then
-- on both are alike.
theorem saved_restores (ops : List Operation) {fresh : Registry}
    (hfresh : fresh.rules = .empty) :
    let r := Registry.empty.run ops
    let text := Json.Format.document.toText r.document
    let restored := fresh.run [.read text]
    fresh.answers [.read text] = [.done] ∧ restored.rules = r.rules ∧
      restored.persistent = r.persistent ∧ restored.document = r.document ∧
      ∀ later, (∀ op ∈ later, Plain op) →
        restored.answers later = r.answers later ∧
          (restored.run later).rules = (r.run later).rules := by
  intro r text restored
  have hread := fresh.perform_read_toText r.document
  have hrestored : restored = fresh.load r.document := congrArg (·.1) hread
  have hrules : restored.rules = r.rules := by
    rw [hrestored, load, hfresh]
    exact Table.enter_ofTable r.persistent (distinct_run .empty ops)
  have hpersistent : restored.persistent = r.persistent := by
    rw [hrestored]
    rfl
  refine ⟨?_, hrules, hpersistent, ?_, fun later hlater => run_congr_of_plain hlater hrules⟩
  · change [(fresh.perform (.read text)).2.1] = [.done]
    rw [hread]
  · rw [document, document, hrules, hpersistent]

theorem saved_restores_extremes :
    let host : SocketPattern := ⟨some "höst \"☂\"\n", none⟩
    let ops : List Operation := [.setPersistent true, .setSocket host (.delay Int32.minValue),
      .setSource ⟨none, some "\\"⟩ .closed, .resolve (.socket ⟨"db", 5432, -1, none⟩) none]
    let text := Json.Format.document.toText (Registry.empty.run ops).document
    let fresh := Registry.empty.setKeeper fun _ => some "disk full"
    let later : List Operation := [.resolve (.socket ⟨"höst \"☂\"\n", 80, 3, none⟩) none]
    fresh.rules = .empty ∧ (∀ op ∈ later, Plain op) ∧
      (fresh.run [.read text]).answers later = [.status (.delay Int32.minValue)] := by
  intro host ops text fresh later
  have hlater : ∀ op ∈ later, Plain op := by
    intro op hop
    rw [List.mem_singleton.mp hop]
    exact .resolve _
  have hrestored := (@saved_restores ops fresh rfl).2.2.2.2 later hlater
  exact ⟨rfl, hlater, hrestored.1.trans (by decide)⟩

end Registry

end CallWatch.Fault
