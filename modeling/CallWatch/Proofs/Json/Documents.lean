import CallWatch.Json.Format.Document
import CallWatch.Proofs.Json.Forms

namespace CallWatch.Fault

open Json.Reader (exists_writeInt ne_of_isNumberStart)

-- What is none of the two words is read as a number.
theorem Status.read?_of_ne {text : List Char} (hopened : text ≠ "OPEN".toList)
    (hclosed : text ≠ "CLOSED".toList) :
    Status.read? text = (Text.readInt? (-2147483648) 2147483647 text).map fun i =>
      .delay (Int32.ofInt i) :=
  (if_neg hopened).trans (if_neg hclosed)

theorem Status.read?_write (s : Status) : Status.read? s.write = some s := by
  cases s with
  | opened => rfl
  | closed => rfl
  | delay millis =>
      have hlower : -2147483648 ≤ millis.toInt := millis.le_toInt
      have hupper : millis.toInt ≤ 2147483647 := by
        have := millis.toInt_lt
        omega
      obtain ⟨c, cs, htext, hc⟩ := exists_writeInt millis.toInt
      have hword : ∀ d ds, Json.Reader.isNumberStart d = false →
          Text.writeInt millis.toInt ≠ d :: ds := by
        intro d ds hd heq
        rw [htext] at heq
        exact ne_of_isNumberStart hc hd (List.cons.inj heq).1
      have hopened : Text.writeInt millis.toInt ≠ "OPEN".toList :=
        hword 'O' "PEN".toList (by decide)
      have hclosed : Text.writeInt millis.toInt ≠ "CLOSED".toList :=
        hword 'C' "LOSED".toList (by decide)
      rw [write, read?_of_ne hopened hclosed, Text.readInt?_writeInt hlower hupper,
        Option.map_some, Int32.ofInt_toInt]

end CallWatch.Fault

namespace CallWatch.Json.Format

open CallWatch.Fault

theorem reads_status (s : Status) : Reads readStatus (status.write s) s :=
  (Reader.reads_text s.write).bind (by rw [Status.read?_write])

theorem portOfNat?_toNat (p : UInt16) : portOfNat? p.toNat = some p := by
  have hlt := p.toNat_lt
  rw [portOfNat?, if_pos (by omega), UInt16.ofNat_toNat]

theorem reads_port (depth : Nat) (p : UInt16) :
    Reads (readPort depth) (Writer.natural p.toNat) (some p) := by
  have hwrite : Writer.natural p.toNat = Text.writeInt p.toNat := by
    rw [Writer.natural, Text.writeInt_of_nonneg (by omega), Int.toNat_natCast]
  obtain ⟨c, cs, htext, hc⟩ := Reader.exists_writeInt p.toNat
  have hblank := Reader.isBlank_of_isNumberStart hc
  have hlt := p.toNat_lt
  rw [hwrite]
  refine ⟨⟨c, cs, htext, hblank, Reader.ne_of_isNumberStart hc (by decide)⟩, fun rest hrest => ?_⟩
  have hread := Number.run_writeInt (i := p.toNat) (by omega) (by rw [Count.limit]; omega) hrest
  rw [htext, List.cons_append] at hread ⊢
  rw [readPort, Reader.run_bind (Reader.run_token? hblank _)]
  generalize c :: (cs ++ rest) = input at hread ⊢
  have hn : c ≠ 'n' := Reader.ne_of_isNumberStart hc (by decide)
  have hquote : c ≠ '"' := Reader.ne_of_isNumberStart hc (by decide)
  simp only [hc, if_true]
  rw [Reader.run_bind hread]
  simp only [portOfNat?_toNat]
  rfl

section

variable {δ α β γ : Type} {form : Form δ α} {name : String} {write : γ → List Char}

-- A member that is left out leaves the draft as it is.
theorem fills_given (draft : δ) {get : δ → Option β} {set : δ → β → δ} {r : Reader β} {wrap : γ → β}
    (hd : form.Distinct) (hfield : .of name get set r ∈ form.fields) (hlacks : get draft = none)
    (hread : ∀ x, Reads r (write x) (wrap x)) (x? : Option γ) :
    form.Fills draft (given name (x?.map write)) (x?.elim draft fun x => set draft (wrap x)) := by
  cases x? with
  | none => exact .nil draft
  | some x =>
      have h := Form.Fills.of hd hfield hlacks (hread x)
      exact h

theorem fills_writeList (draft : δ) {get : δ → Option (List γ)} {set : δ → List γ → δ}
    {item : Reader γ} (hd : form.Distinct) (hfield : .of name get set (Reader.list item) ∈ form.fields)
    (hlacks : get draft = none) (hread : ∀ x, Reads item (write x) x) (xs : List γ) :
    form.Fills draft (writeList name write xs) (if xs = [] then draft else set draft xs) := by
  cases xs with
  | nil => exact .nil draft
  | cons x xs =>
      have h := Form.Fills.of hd hfield hlacks
        (Reader.reads_list fun y (_ : y ∈ x :: xs) => hread y)
      exact h

end

theorem reads_option_string (s : String) :
    Reads (Reader.option Reader.string) (Writer.string s) (some s) :=
  Reader.reads_option (Reader.reads_string s) (by simp [Writer.string, Writer.text])

theorem distinct_socketEntryForm (depth : Nat) : (socketEntryForm depth).Distinct := by
  change ["host", "port", "status"].Nodup
  decide

theorem distinct_sourceEntryForm : sourceEntryForm.Distinct := by
  decide

theorem distinct_documentForm : documentForm.Distinct := by
  decide

theorem reads_socketEntry (depth : Nat) (e : SocketEntry) :
    Reads (socketEntryForm depth).read (writeSocketEntry e) e := by
  obtain ⟨host, port, status⟩ := e
  have hd := distinct_socketEntryForm depth
  have hhost : (socketEntryForm depth).Fills ⟨none, none, none⟩
      (given "host" (host.map Writer.string)) ⟨host.map some, none, none⟩ := by
    have h := fills_given ⟨none, none, none⟩ hd (.head _) rfl reads_option_string host
    cases host <;> exact h
  have hport : (socketEntryForm depth).Fills ⟨host.map some, none, none⟩
      (given "port" (port.map fun n => Writer.natural n.toNat))
      ⟨host.map some, port.map some, none⟩ := by
    have h := fills_given ⟨host.map some, none, none⟩ hd (.tail _ (.head _)) rfl
      (reads_port (depth + 1)) port
    cases port <;> exact h
  have hstatus : (socketEntryForm depth).Fills ⟨host.map some, port.map some, none⟩
      [("status", Format.status.write status)] ⟨host.map some, port.map some, some status⟩ :=
    .of hd (.tail _ (.tail _ (.head _))) rfl (reads_status status)
  refine Form.reads_object ((hhost.append hport).append hstatus) ?_
  cases host <;> cases port <;> rfl

theorem reads_sourceEntry (e : SourceEntry) :
    Reads sourceEntryForm.read (writeSourceEntry e) e := by
  obtain ⟨url, user, status⟩ := e
  have hd := distinct_sourceEntryForm
  have hurl : sourceEntryForm.Fills ⟨none, none, none⟩
      (given "url" (url.map Writer.string)) ⟨url.map some, none, none⟩ := by
    have h := fills_given ⟨none, none, none⟩ hd (.head _) rfl reads_option_string url
    cases url <;> exact h
  have huser : sourceEntryForm.Fills ⟨url.map some, none, none⟩
      (given "userName" (user.map Writer.string)) ⟨url.map some, user.map some, none⟩ := by
    have h := fills_given ⟨url.map some, none, none⟩ hd (.tail _ (.head _)) rfl
      reads_option_string user
    cases user <;> exact h
  have hstatus : sourceEntryForm.Fills ⟨url.map some, user.map some, none⟩
      [("status", Format.status.write status)] ⟨url.map some, user.map some, some status⟩ :=
    .of hd (.tail _ (.tail _ (.head _))) rfl (reads_status status)
  refine Form.reads_object ((hurl.append huser).append hstatus) ?_
  cases url <;> cases user <;> rfl

theorem reads_document (d : Document) : Reads document.read (document.write d) d := by
  obtain ⟨persistent, sockets, sources⟩ := d
  have hd := distinct_documentForm
  have hpersistent : documentForm.Fills ⟨none, none, none⟩
      [("persistent", Writer.bool persistent)] ⟨some persistent, none, none⟩ :=
    .of hd (.head _) rfl (Reader.reads_bool persistent)
  have hsockets : documentForm.Fills ⟨some persistent, none, none⟩
      (writeList "sockets" writeSocketEntry sockets)
      ⟨some persistent, if sockets = [] then none else some sockets, none⟩ := by
    have h := fills_writeList ⟨some persistent, none, none⟩ hd (.tail _ (.head _)) rfl
      (reads_socketEntry 2) sockets
    cases sockets <;> exact h
  have hsources : documentForm.Fills
      ⟨some persistent, if sockets = [] then none else some sockets, none⟩
      (writeList "dataSources" writeSourceEntry sources)
      ⟨some persistent, if sockets = [] then none else some sockets,
        if sources = [] then none else some sources⟩ := by
    have h := fills_writeList ⟨some persistent, if sockets = [] then none else some sockets, none⟩
      hd (.tail _ (.tail _ (.head _))) rfl reads_sourceEntry sources
    cases sources <;> exact h
  refine Form.reads_object ((hpersistent.append hsockets).append hsources) ?_
  cases sockets <;> cases sources <;> rfl

end CallWatch.Json.Format
