import SupportPlatform.RequestBodyLimit

/-! # What gets past the limit of request bodies

The other side of `RequestBodyLimitMiddleware`: what an application behind it can learn of a
request that is too large.  Its receiving is answered message by message (`answers`).  A body is
refused once the bytes up to it exceed the limit, and from there on every body is, whatever the
application does with a refusal.  So the bytes that it gets stay within the limit, and a refusal
that it lets pass ends in the response of `_reject`.
-/
namespace SupportPlatform
namespace RequestBodyLimitMiddleware
open Program

variable {Sent : Type} {maxBodyBytes : Nat}

/-! ## Answers -/

/-- What `limited_receive` makes of a message, with so many bytes received up to its end. -/
def limitedAnswer (maxBodyBytes received : Nat) : AsgiMessage → Except AsgiError AsgiMessage
  | .httpDisconnect => .ok .httpDisconnect
  | .httpRequest body moreBody =>
      if received > maxBodyBytes then .error .requestBodyTooLarge
      else .ok (.httpRequest body moreBody)

/-- What it makes of the messages, after so many bytes. -/
def answers (maxBodyBytes : Nat) : Nat → List AsgiMessage → List (Except AsgiError AsgiMessage)
  | _, [] => []
  | received, message :: messages =>
      limitedAnswer maxBodyBytes (received + (bodyOf [message]).length) message ::
        answers maxBodyBytes (received + (bodyOf [message]).length) messages

/-- The messages that were not refused. -/
def delivered (seen : List (Except AsgiError AsgiMessage)) : List AsgiMessage :=
  seen.filterMap fun r => r.toOption

/-- An application whose receiving is answered like this. -/
def serveAnswers :
    List (Except AsgiError AsgiMessage) → AsgiApp Sent → List (Event Sent) × Except AsgiError Unit
  | _, .ret a => ([], .ok a)
  | _, .raise e => ([], .error e)
  | [], .call .receive k => serveAnswers [] (k (.ok .httpDisconnect))
  | r :: seen, .call .receive k => serveAnswers seen (k r)
  | seen, .call (.send message) k =>
      let served := serveAnswers seen (k ())
      (.sent message :: served.1, served.2)
  | seen, .call (.respond statusCode content) k =>
      let served := serveAnswers seen (k ())
      (.responded statusCode content :: served.1, served.2)

/-- The response of `_reject`. -/
def rejection : Event Sent :=
  .responded 413 (.obj [("detail", .str "Request body exceeds the configured limit")])

/-- A refusal that the application lets pass ends in the response of `_reject`. -/
def rejecting (served : List (Event Sent) × Except AsgiError Unit) :
    List (Event Sent) × Except AsgiError Unit :=
  if served.2 = .error .requestBodyTooLarge then (served.1 ++ [rejection], .ok ()) else served

/-! ## The bytes that are delivered -/

theorem bodyOf_cons (message : AsgiMessage) (messages : List AsgiMessage) :
    bodyOf (message :: messages) = bodyOf [message] ++ bodyOf messages := by
  rw [bodyOf, bodyOf, bodyOf, List.flatMap_cons, List.flatMap_singleton]

/-- **A message is answered** by the bytes up to its end. -/
theorem answers_get (received : Nat) (messages : List AsgiMessage) (k : Nat) :
    (answers maxBodyBytes received messages)[k]? = messages[k]?.map
      (limitedAnswer maxBodyBytes (received + (bodyOf (messages.take (k + 1))).length)) := by
  induction messages generalizing received k with
  | nil => rfl
  | cons message messages ih =>
      cases k with
      | zero => rfl
      | succ k =>
          rw [answers, List.getElem?_cons_succ, List.getElem?_cons_succ, ih,
            List.take_succ_cons, bodyOf_cons message (messages.take (k + 1)), List.length_append,
            Nat.add_assoc]

/-- Refused bodies are not delivered, and the others add up to no more than the limit. -/
theorem delivered_within (messages : List AsgiMessage) (received : Nat) :
    (bodyOf (delivered (answers maxBodyBytes received messages))).length ≤
      maxBodyBytes - received := by
  induction messages generalizing received with
  | nil => exact Nat.zero_le _
  | cons message messages ih =>
      cases message with
      | httpDisconnect => exact ih received
      | httpRequest body moreBody =>
          have hbody : bodyOf [.httpRequest body moreBody] = body := List.append_nil body
          have hrest := ih (received + body.length)
          by_cases hover : received + body.length > maxBodyBytes
          · have hseen : delivered (answers maxBodyBytes received
                (.httpRequest body moreBody :: messages)) =
                delivered (answers maxBodyBytes (received + body.length) messages) := by
              rw [answers, hbody, limitedAnswer, if_pos hover]
              rfl
            rw [hseen]
            omega
          · have hseen : delivered (answers maxBodyBytes received
                (.httpRequest body moreBody :: messages)) = .httpRequest body moreBody ::
                delivered (answers maxBodyBytes (received + body.length) messages) := by
              rw [answers, hbody, limitedAnswer, if_neg hover]
              rfl
            rw [hseen, bodyOf_cons, hbody, List.length_append]
            omega

/-! ## What the application sees -/

/-- **Reading by `limited_receive`** is being answered like this. -/
theorem serve_limited_eq (app : AsgiApp Sent) (received : Nat) (messages : List AsgiMessage) :
    serve messages (limited maxBodyBytes received app) =
      serveAnswers (answers maxBodyBytes received messages) app := by
  induction app generalizing received messages with
  | ret a => simp only [limited, serve, serveAnswers]
  | raise e => simp only [limited, serve, serveAnswers]
  | call o k ih =>
      cases o with
      | send message =>
          simp only [limited, serve, serveAnswers]
          exact congrArg (fun served : List (Event Sent) × Except AsgiError Unit =>
            (Event.sent message :: served.1, served.2)) (ih () received messages)
      | respond statusCode content =>
          simp only [limited, serve, serveAnswers]
          exact congrArg (fun served : List (Event Sent) × Except AsgiError Unit =>
            (Event.responded statusCode content :: served.1, served.2)) (ih () received messages)
      | receive =>
          cases messages with
          | nil =>
              simp only [limited, serve, serveAnswers, answers]
              exact ih (.ok .httpDisconnect) received []
          | cons message messages =>
              cases message with
              | httpDisconnect =>
                  simp only [limited, serve, serveAnswers, answers, limitedAnswer]
                  exact ih (.ok .httpDisconnect) received messages
              | httpRequest body moreBody =>
                  have hbody : bodyOf [.httpRequest body moreBody] = body := List.append_nil body
                  by_cases hover : received + body.length > maxBodyBytes
                  · simp only [limited, serve, serveAnswers, answers, limitedAnswer, hbody,
                      if_pos hover]
                    exact ih (.error .requestBodyTooLarge) (received + body.length) messages
                  · simp only [limited, serve, serveAnswers, answers, limitedAnswer, hbody,
                      if_neg hover]
                    exact ih (.ok (.httpRequest body moreBody)) (received + body.length) messages

/-- Where a refusal escapes, the response of `_reject` follows what was sent before. -/
theorem serve_rejecting (app : AsgiApp Sent) (messages : List AsgiMessage) :
    serve messages (Program.tryCatch app fun e =>
      if e = .requestBodyTooLarge then reject else .raise e) = rejecting (serve messages app) := by
  induction app generalizing messages with
  | ret a => simp [Program.tryCatch, serve, rejecting]
  | raise e =>
      by_cases he : e = .requestBodyTooLarge
      · simp [Program.tryCatch, serve, rejecting, he, reject, rejection]
      · simp [Program.tryCatch, serve, rejecting, he]
  | call o k ih =>
      cases o with
      | receive =>
          cases messages with
          | nil => exact ih (.ok .httpDisconnect) []
          | cons message messages => exact ih (.ok message) messages
      | send message =>
          have hrest := ih () messages
          rw [Program.tryCatch, serve, serve, hrest, rejecting, rejecting]
          split <;> rfl
      | respond statusCode content =>
          have hrest := ih () messages
          rw [Program.tryCatch, serve, serve, hrest, rejecting, rejecting]
          split <;> rfl

/-- **The limit is enforced.**  A request that announces more than the limit is answered by 413,
and none of its body is received.  Any other one is served to the application, whatever it is, with
its receiving answered by `seen`: the messages in their order, each body refused when the bytes
up to its end exceed the limit, so that those it gets never do; and when the application lets a
refusal pass, what it sent before is followed by 413. -/
theorem body_limit_enforced {scope : Scope} (htype : scope.type = some ("http" : Text))
    (app : AsgiApp Sent) (messages : List AsgiMessage) :
    ((∃ length ∈ announced scope, (maxBodyBytes : Int) < length) →
      (call maxBodyBytes app scope).Only (fun o => o ≠ .receive) ∧
        serve messages (call maxBodyBytes app scope) = ([rejection], .ok ())) ∧
    ((∀ length ∈ announced scope, length ≤ (maxBodyBytes : Int)) →
      ∃ seen : List (Except AsgiError AsgiMessage),
        (bodyOf (delivered seen)).length ≤ maxBodyBytes ∧
        (∀ k, seen[k]? = messages[k]?.map
          (limitedAnswer maxBodyBytes (bodyOf (messages.take (k + 1))).length)) ∧
        serve messages (call maxBodyBytes app scope) = rejecting (serveAnswers seen app)) := by
  have hhttp : ¬ scope.type ≠ some ("http" : Text) := fun h => h htype
  constructor
  · intro ⟨length, hlength, hover⟩
    have hany : (announced scope).any (fun length => (maxBodyBytes : Int) < length) = true := by
      rw [Option.mem_def.mp hlength]
      simpa using hover
    rw [call, if_neg hhttp, if_pos hany]
    refine ⟨⟨fun h => ?_, fun _ => trivial⟩, by simp [reject, serve, rejection]⟩
    cases h
  · intro hannounced
    have hany : ¬ (announced scope).any (fun length => (maxBodyBytes : Int) < length) = true := by
      cases hlength : announced scope with
      | none => simp
      | some length =>
          have hle := hannounced length hlength
          simpa using hle
    refine ⟨answers maxBodyBytes 0 messages, delivered_within messages 0, fun k => ?_, ?_⟩
    · have hget := @answers_get maxBodyBytes 0 messages k
      rwa [Nat.zero_add] at hget
    · rw [call, if_neg hhttp, if_neg hany, serve_rejecting, serve_limited_eq]

/-- A request that announces no length. -/
def chunkedScope : Scope := ⟨some "http", []⟩

/-- A body of three bytes in two chunks. -/
def twoChunks : List AsgiMessage := [.httpRequest [123] true, .httpRequest [34, 125] false]

/-- A reader of both chunks behind a limit of two bytes. -/
theorem body_limit_enforced_chunked :
    ∃ seen : List (Except AsgiError AsgiMessage), (bodyOf (delivered seen)).length ≤ 2 ∧
      (∀ k, seen[k]? = twoChunks[k]?.map
        (limitedAnswer 2 (bodyOf (twoChunks.take (k + 1))).length)) ∧
      serve twoChunks (call 2 (reader Unit 2) chunkedScope) =
        rejecting (serveAnswers seen (reader Unit 2)) := by
  refine (@body_limit_enforced Unit 2 chunkedScope rfl (reader Unit 2) twoChunks).2 ?_
  intro length hlength
  cases hlength

end RequestBodyLimitMiddleware
end SupportPlatform
