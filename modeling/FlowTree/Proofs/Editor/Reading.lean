import FlowTree.Proofs.Editor.Documents

/-!
Documents that the editor has not opened. The first request about one that finds its file reads it, and the session keeps
what it read: later requests are answered from it whatever becomes of the file, until the editor opens or closes the
document. So an answer is from the file as it is when nothing was read before, or when the file has not changed since.
-/

namespace FlowTree.Editor

namespace Session

structure Fails (s : Session) (disk : Text → Except FileError Text) (uri : String) (e : SessionError) : Prop where
  symbols : (s.handle disk (.symbols uri)).reply = .error e
  highlights : (s.handle disk (.highlights uri)).reply = .error e

/-- What the first request about a document that finds its file reads. -/
def firstRead? (uri : String) (path : Text) (calls : List Call) : Option Text :=
  calls.findSome? fun c => if c.request.asks uri then (c.disk path).toOption else none

variable {s : Session} {disk : Text → Except FileError Text} {r : Request} {uri : String} {path : Text}

section
variable (unknown : s.document? uri = none)
include unknown

theorem Effect.unusable {o : Outcome} {message : String} (h : Effect s disk r o)
    (unusable : pathOfUri uri = .error message) : o.session.document? uri = none := by
  cases h with
  | nothing => exact unknown
  | @put other path text _ usable =>
    have hne : uri ≠ (Document.analyze other path text).uri := by
      rw [uri_analyze]
      rintro rfl
      cases unusable.symm.trans usable
    exact (document?_put_of_ne hne).trans unknown
  | @forget other =>
    by_cases hother : uri = other
    · exact hother ▸ document?_forget_self s uri
    · exact (document?_forget_of_ne hother).trans unknown

theorem run_unusable {message : String} (unusable : pathOfUri uri = .error message) (calls : List Call) :
    (s.run calls).document? uri = none := by
  induction calls generalizing s with
  | nil => exact unknown
  | cons c calls ih => exact ih ((effect_handle s c.disk c.request).unusable unknown unusable)

theorem fails_of_unusable {message : String} (unusable : pathOfUri uri = .error message) :
    s.Fails disk uri (.location message) :=
  ⟨by simp [handle, answer, unknown, unusable], by simp [handle, answer, unknown, unusable]⟩

variable (usable : pathOfUri uri = .ok path)
include usable

theorem fails_of_unreadable {e : FileError} (unreadable : disk path = .error e) : s.Fails disk uri (.file path e) :=
  ⟨by simp [handle, answer, unknown, usable, unreadable], by simp [handle, answer, unknown, usable, unreadable]⟩

theorem answersFrom_of_readable {text : Text} (readable : disk path = .ok text) :
    s.AnswersFrom disk uri (.analyze uri path text) :=
  ⟨by simp [handle, answer, unknown, usable, readable], by simp [handle, answer, unknown, usable, readable]⟩

/-- A request about the document puts into the session what it reads. -/
theorem document?_of_asks (asks : r.asks uri = true) :
    (s.handle disk r).session.document? uri = (disk path).toOption.map (Document.analyze uri path) := by
  have hanswer : ∀ reply, (s.answer disk uri reply).session.document? uri =
      (disk path).toOption.map (Document.analyze uri path) := by
    intro reply
    unfold answer
    simp only [unknown, usable]
    cases disk path with
    | error => exact unknown
    | ok text =>
      have hself := document?_put_self s (.analyze uri path text)
      rwa [uri_analyze] at hself
  cases r with
  | symbols other =>
    obtain rfl : other = uri := by simpa [Request.asks] using asks
    exact hanswer _
  | highlights other =>
    obtain rfl : other = uri := by simpa [Request.asks] using asks
    exact hanswer _
  | _ => cases asks

/-- What is known of a document that the editor does not tell of is what was read first. -/
theorem run_unopened {calls : List Call} (silent : ∀ call ∈ calls, ∀ text?, ¬call.request.Tells uri text?) :
    (s.run calls).document? uri = (firstRead? uri path calls).map (Document.analyze uri path) := by
  induction calls generalizing s with
  | nil => exact unknown
  | cons c calls ih =>
    obtain ⟨hc, hcalls⟩ := List.forall_mem_cons.mp silent
    rw [firstRead?, List.findSome?_cons, ← firstRead?]
    by_cases asks : c.request.asks uri = true
    · have hdocument : (s.handle c.disk c.request).session.document? uri =
          (c.disk path).toOption.map (Document.analyze uri path) := document?_of_asks unknown usable asks
      rw [if_pos asks]
      cases hread : (c.disk path).toOption with
      | none =>
        -- A request that could not read the file leaves the document unknown, and the next one tries again.
        rw [hread] at hdocument
        exact ih hdocument hcalls
      | some text =>
        rw [hread] at hdocument
        exact (run_undisturbed hdocument hcalls).1
    · rw [if_neg asks]
      exact ih (((effect_handle s c.disk c.request).undisturbed hc (fun h => absurd h asks)).1.trans unknown) hcalls

end

theorem firstRead?_of_unchanged {calls : List Call} {text : Text}
    (unchanged : ∀ call ∈ calls, call.request.asks uri = true → call.disk path = disk path)
    (hread : firstRead? uri path calls = some text) : disk path = .ok text := by
  obtain ⟨call, hcall, hsome⟩ := List.exists_of_findSome?_eq_some hread
  split at hsome
  · rw [unchanged call hcall ‹_›] at hsome
    cases hdisk : disk path with
    | error => simp [hdisk, Except.toOption] at hsome
    | ok content => simpa [hdisk, Except.toOption] using hsome
  · cases hsome

end Session

/-- What is answered about a document that is not open, because the editor never told of it or has closed it since. Where
the URI is of no use, requests fail. Otherwise they are answered from what the first of them read since, if any of them
could read the file. So they are answered from the file as it is, or fail as it cannot be read, if no request has read it
or if it has been the same for all of them. -/
theorem unopened_answers (name version uri : String) (history since : List Call)
    (unopened : history = since ∨ ∃ earlier disk, history = earlier ++ ⟨disk, .closed uri⟩ :: since)
    (silent : ∀ call ∈ since, ∀ text?, ¬call.request.Tells uri text?) (disk : Text → Except FileError Text) :
    let now := ({ name, version } : Session).run history
    (∀ message, pathOfUri uri = .error message → now.Fails disk uri (.location message)) ∧
    ∀ path, pathOfUri uri = .ok path →
      (∀ text, Session.firstRead? uri path since = some text → now.AnswersFrom disk uri (.analyze uri path text)) ∧
      ((Session.firstRead? uri path since = none ∨
          ∀ call ∈ since, call.request.asks uri = true → call.disk path = disk path) →
        (∀ text, disk path = .ok text → now.AnswersFrom disk uri (.analyze uri path text)) ∧
        ∀ e, disk path = .error e → now.Fails disk uri (.file path e)) := by
  intro now
  -- Nothing is known of the document when the calls begin that do not tell of it.
  obtain ⟨start, unknown, hnow⟩ : ∃ start : Session, start.document? uri = none ∧ now = start.run since := by
    rcases unopened with rfl | ⟨earlier, _, rfl⟩
    · exact ⟨_, rfl, rfl⟩
    · exact ⟨_, Session.document?_forget_self _ uri, Session.run_append _ earlier _⟩
  rw [hnow]
  refine ⟨fun message unusable => ?_, fun path usable => ?_⟩
  · exact Session.fails_of_unusable (Session.run_unusable unknown unusable since) unusable
  · have hrun := Session.run_unopened unknown usable silent
    have hread : ∀ text, Session.firstRead? uri path since = some text →
        (start.run since).AnswersFrom disk uri (.analyze uri path text) := by
      intro text htext
      rw [htext] at hrun
      exact Session.answersFrom_of_known hrun disk
    refine ⟨hread, fun current => ?_⟩
    cases hfirst : Session.firstRead? uri path since with
    | none =>
      rw [hfirst] at hrun
      exact ⟨fun text => Session.answersFrom_of_readable hrun usable, fun e => Session.fails_of_unreadable hrun usable⟩
    | some text =>
      have hdisk := Session.firstRead?_of_unchanged (current.resolve_left (by simp [hfirst])) hfirst
      refine ⟨fun text' htext' => ?_, fun e he => ?_⟩
      · obtain rfl : text = text' := Except.ok.inj (hdisk.symm.trans htext')
        exact hread text hfirst
      · cases hdisk.symm.trans he

/-- A disk that has the same text under every path. -/
def oneFile (text : Text) : Text → Except FileError Text := fun _ => .ok text

/-- A document is opened, closed and asked about, which reads it. It is gone when it is asked about again. -/
theorem unopened_answers_deleted :
    let since : List Call := [⟨oneFile (.ofString "OpNop"), .highlights "a.s"⟩]
    let history : List Call := [⟨noFiles, .opened "a.s" []⟩] ++ ⟨noFiles, .closed "a.s"⟩ :: since
    pathOfUri "a.s" = .ok (.ofString "a.s") ∧
      Session.firstRead? "a.s" (.ofString "a.s") since = some (.ofString "OpNop") ∧
      (({ name := "flow", version := "1" } : Session).run history).AnswersFrom noFiles "a.s"
        (.analyze "a.s" (.ofString "a.s") (.ofString "OpNop")) := by
  intro since history
  have usable : pathOfUri "a.s" = .ok (.ofString "a.s") := by decide +kernel
  have hread : Session.firstRead? "a.s" (.ofString "a.s") since = some (.ofString "OpNop") := rfl
  have silent : ∀ call ∈ since, ∀ text?, ¬call.request.Tells "a.s" text? := by
    intro call hcall text? tells
    rw [List.mem_singleton.mp hcall] at tells
    cases tells
  obtain ⟨-, hanswers⟩ := unopened_answers "flow" "1" "a.s" history since (Or.inr ⟨_, _, rfl⟩) silent noFiles
  exact ⟨usable, hread, (hanswers _ usable).1 _ hread⟩

/-- What was read is answered from although the file has another text by then: the words of the old text are highlighted,
and the new one has none. -/
theorem read_document_outlives_file :
    let now := ({ name := "flow", version := "1" } : Session).run [⟨oneFile (.ofString "OpNop"), .highlights "a.s"⟩]
    pathOfUri "a.s" = .ok (.ofString "a.s") ∧ oneFile [] (.ofString "a.s") = .ok [] ∧
      (now.handle (oneFile []) (.highlights "a.s")).reply = .ok (.highlights [0, 0, 5, 4, 0]) ∧
      ¬now.AnswersFrom (oneFile []) "a.s" (.analyze "a.s" (.ofString "a.s") []) := by
  intro now
  have usable : pathOfUri "a.s" = .ok (.ofString "a.s") := by decide +kernel
  have hknown : now.document? "a.s" = some (.analyze "a.s" (.ofString "a.s") (.ofString "OpNop")) :=
    Session.document?_of_asks (r := .highlights "a.s") rfl usable rfl
  have hreply := (Session.answersFrom_of_known hknown (oneFile [])).highlights
  have hold : encodeHighlights {} (((Document.analyze "a.s" (.ofString "a.s") (.ofString "OpNop")).program?.map
      highlights).getD []) = [0, 0, 5, 4, 0] := by decide +kernel
  have hnew : encodeHighlights {} (((Document.analyze "a.s" (.ofString "a.s") []).program?.map highlights).getD []) =
      [] := by
    decide +kernel
  rw [hold] at hreply
  refine ⟨usable, rfl, hreply, fun hanswers => ?_⟩
  have hreplies := hreply.symm.trans hanswers.highlights
  rw [hnew] at hreplies
  cases hreplies

end FlowTree.Editor
