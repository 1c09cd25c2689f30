import PaymentWebhook.JsString

set_option relaxedAutoImplicit false
set_option autoImplicit false

/-!
# Sanitising error messages

`sanitizeError` redacts what an error message may leak before the worker stores it in
`last_error`.

## Main definitions

* `PaymentWebhook.redactWord` — `message.replace(/word[^\s]*/gi, '[REDACTED]')`.
* `PaymentWebhook.redactPayload` — `message.replace(/\{[\s\S]{200,}\}/g, '{[PAYLOAD_REDACTED]}')`.
* `PaymentWebhook.sanitizeError` — the whole.

## Implementation notes

Lengths are counted in UTF-16 code units, as JavaScript counts them.  Without the `u` flag a
letter matches case-insensitively only among ASCII.
-/

namespace PaymentWebhook

/-- `MAX_ERROR_LENGTH`. -/
def MAX_ERROR_LENGTH : ℕ := 2000

/-- What follows `word` in `s`, if `s` starts with it, in any case. -/
def afterWord : List Char → List Char → Option (List Char)
  | [], s => some s
  | _ :: _, [] => none
  | w :: word, c :: s => if c.toLower = w.toLower then afterWord word s else none

/-- `s.replace(/word[^\s]*/gi, '[REDACTED]')`, scanning at most `fuel` characters. -/
def redactWordFrom (word : List Char) : ℕ → List Char → List Char
  | 0, s => s
  | _ + 1, [] => []
  | fuel + 1, c :: s =>
    match afterWord word (c :: s) with
    | some after =>
      "[REDACTED]".toList ++ redactWordFrom word fuel (after.dropWhile (fun c => !jsSpace c))
    | none => c :: redactWordFrom word fuel s

/-- `s.replace(/word[^\s]*/gi, '[REDACTED]')`. -/
def redactWord (word : String) (s : List Char) : List Char :=
  redactWordFrom word.toList s.length s

/-- `s.replace(/\{[\s\S]{200,}\}/g, '{[PAYLOAD_REDACTED]}')`: the match is greedy, from the first
opening brace to the last closing one. -/
def redactPayload (s : List Char) : List Char :=
  let before := s.takeWhile (· ≠ '{')
  match s.dropWhile (· ≠ '{') with
  | [] => s
  | _ :: t =>
    let after := (t.reverse.takeWhile (· ≠ '}')).reverse
    match t.reverse.dropWhile (· ≠ '}') with
    | [] => s
    | _ :: inner =>
      if 200 ≤ jsLength inner then before ++ "{[PAYLOAD_REDACTED]}".toList ++ after else s

/-- The first `n` code units; half of a surrogate pair is stored as U+FFFD. -/
def takeUnits : ℕ → List Char → List Char
  | _, [] => []
  | n, c :: s =>
    if utf16Units c ≤ n then c :: takeUnits (n - utf16Units c) s
    else if n = 1 then ['\ufffd'] else []

/-- **`sanitizeError`**, on the message of the error. -/
def sanitizeError (message : String) : String :=
  let message := redactWord "WEBHOOK_SECRET" message.toList
  let message := redactWord "password" message
  let message := redactWord "secret" message
  let message := redactPayload message
  if MAX_ERROR_LENGTH < jsLength message then
    String.ofList (takeUnits (MAX_ERROR_LENGTH - 3) message ++ ['.', '.', '.'])
  else String.ofList message

end PaymentWebhook
