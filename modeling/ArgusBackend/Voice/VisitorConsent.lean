import ArgusBackend.Library.Rewriting
import ArgusBackend.Library.Runs
import Mathlib.Data.Int.Basic
import Mathlib.Data.List.DropRight

/-!
# What a visitor answers

A visitor is asked whether the house may remember them.  Their answer is folded to plain letters,
the wake words are left out, and what is left is compared with lists of phrases.

* `wakeWordsOf`, `isWakeWord` : the folded words of a text, and those that call the assistant;
* `consentAnswer` : yes, no or neither;
* `consentTurn`, `Conversation.consentHolds` : what a turn does to the consent.
-/

namespace ArgusBackend

namespace Voice

namespace Consent

/-- A word after folding. -/
abbrev Word := List Char

/-! ### Folding -/

/-- What one character of a text is: a letter after folding, or none. -/
structure Scanned where
  letter : Option Char := none
  length : ℕ := 1
  comma : Bool := false

/-- The letter of the second byte of a Latin-1 letter with an accent. -/
def foldLatin (second : UInt8) : Option Char :=
  if second ∈ ([0xa0, 0xa1, 0xa2, 0xa4, 0x80, 0x81, 0x82, 0x84] : List UInt8) then some 'a'
  else if second ∈ ([0xa8, 0xa9, 0xaa, 0xab, 0x88, 0x89, 0x8a, 0x8b] : List UInt8) then some 'e'
  else if second ∈ ([0xac, 0xad, 0xae, 0xaf, 0x8c, 0x8d, 0x8e, 0x8f] : List UInt8) then some 'i'
  else if second ∈ ([0xb2, 0xb3, 0xb4, 0xb6, 0x92, 0x93, 0x94, 0x96] : List UInt8) then some 'o'
  else if second ∈ ([0xb9, 0xba, 0xbb, 0xbc, 0x99, 0x9a, 0x9b, 0x9c] : List UInt8) then some 'u'
  else if second ∈ ([0xb1, 0x91] : List UInt8) then some 'n'
  else if second ∈ ([0xa7, 0x87] : List UInt8) then some 'c'
  else none

/-- The length of a UTF-8 character by its first byte. -/
def sequenceLength (lead : UInt8) : ℕ :=
  if lead < 0x80 then 1
  else if lead ≥ 0xf0 then 4
  else if lead ≥ 0xe0 then 3
  else if lead ≥ 0xc0 then 2
  else 1

/-- What stands at a place of the text, where `byte` and then `rest` are left. -/
def scanAt (byte : UInt8) (rest : List UInt8) : Scanned :=
  if byte < 0x80 then
    if (0x61 ≤ byte ∧ byte ≤ 0x7a) ∨ (0x30 ≤ byte ∧ byte ≤ 0x39) then
      { letter := some (Char.ofNat byte.toNat) }
    else if 0x41 ≤ byte ∧ byte ≤ 0x5a then { letter := some (Char.ofNat (byte.toNat + 0x20)) }
    else { comma := byte = 0x2c }
  else
    let length := min (sequenceLength byte) (rest.length + 1)
    if byte = 0xc3 ∧ length = 2 then { letter := foldLatin (rest.headD 0), length := 2 }
    else { length := max 1 length }

/-- The text from its start to its end. -/
def scans : List UInt8 → List Scanned
  | [] => []
  | byte :: rest => scanAt byte rest :: scans (rest.drop ((scanAt byte rest).length - 1))
termination_by text => text.length
decreasing_by
  rw [List.length_drop, List.length_cons]
  omega

/-- The letters, with one blank for what is between them. -/
def foldText (text : List UInt8) : List Char :=
  ((scans text).foldl (fun (s : List Char × Bool) scanned =>
    match scanned.letter with
    | some c => (s.1 ++ [c], false)
    | none => if s.2 then s else (s.1 ++ [' '], true)) ([], true)).1.rdropWhile (· = ' ')

/-- A word of the text, and whether a comma came before it. -/
structure WakeWord where
  folded : Word
  afterComma : Bool
  deriving DecidableEq, Repr

/-- The words so far, the one that is being read and whether a comma came before it. -/
structure Reading where
  words : List WakeWord := []
  current : Word := []
  comma : Bool := false

/-- The current word ends. -/
def Reading.close (r : Reading) : Reading :=
  if r.current = [] then r else { words := r.words ++ [⟨r.current, r.comma⟩] }

/-- One character of the text is read. -/
def Reading.read (r : Reading) (scanned : Scanned) : Reading :=
  match scanned.letter with
  | some c => { r with current := r.current ++ [c] }
  | none => { r.close with comma := r.close.comma || scanned.comma }

/-- The words of a text. -/
def wakeWordsOf (text : List UInt8) : List WakeWord :=
  ((scans text).foldl Reading.read {}).close.words

/-! ### Wake words -/

/-- The forms of the wake word. -/
def kWakeForms : List Word := ["argus".toList, "argos".toList]

/-- A row of the table of distances, from `cell` on its left and `previous` above it. -/
def nextCells (c : Char) (cell : ℕ) : Word → List ℕ → List ℕ
  | r :: right, corner :: above :: previous =>
    let next := min (min (above + 1) (cell + 1)) (corner + if c = r then 0 else 1)
    next :: nextCells c next right (above :: previous)
  | _, _ => []

/-- The edit distance of two words, row by row. -/
def editDistance (left right : Word) : ℕ :=
  (left.foldl (fun (s : ℕ × List ℕ) c => (s.1 + 1, (s.1 + 1) :: nextCells c (s.1 + 1) right s.2))
    (0, List.range (right.length + 1))).2.getD right.length 0

/-- The distance of a word that is never the wake word. -/
def kFar : ℕ := 99

/-- The distance of a word from the wake word, in its nearest form. -/
def wakeDistance (folded : Word) : ℕ :=
  if folded.length < 4 ∨ folded = "argu".toList ∨ "argum".toList <+: folded then kFar
  else
    let best := kWakeForms.foldl (fun best form => min best (editDistance folded form)) kFar
    if folded.length ≤ 4 ∧ best > 1 then kFar
    else if best ≥ 2 ∧ ¬['a'] <+: folded then kFar
    else best

/-- Whether a word is heard as the wake word. -/
def isWakeWord (folded : Word) (maxDistance : ℤ) : Bool := (wakeDistance folded : ℤ) ≤ maxDistance

/-- Whether a text mentions the wake word. -/
def mentionsWake (text : List UInt8) (maxDistance : ℤ) : Bool :=
  (wakeWordsOf text).any fun word => isWakeWord word.folded maxDistance

/-! ### The answer -/

/-- The phrases that mean yes. -/
def kYes : List Word :=
  ["si", "sii", "claro", "por supuesto", "de acuerdo", "esta bien", "ta bien", "dale",
    "ya", "ya pues", "ya ps", "listo", "acepto", "con gusto", "normal", "chevere",
    "de una", "ok", "okay", "okey", "vale", "bueno", "yes", "yeah",
    "yep", "sure", "of course", "i agree", "go ahead", "fine", "alright", "all right",
    "that s ok", "thats fine", "ok then"].map String.toList

/-- The phrases that mean no. -/
def kNo : List Word :=
  ["no", "nop", "nones", "nel", "para nada", "mejor no", "no gracias", "prefiero que no",
    "no quiero", "ni hablar", "de ninguna manera", "nah", "nope", "no thanks", "no thank you",
    "i don t", "i do not", "rather not", "don t", "do not"].map String.toList

/-- The phrases by which a visitor says that they are a child. -/
def kMinorPhrases : List Word :=
  ["soy menor", "soy menor de edad", "soy un nino", "soy una nina", "soy nino", "soy nina",
    "soy chiquito", "soy chiquita", "soy un chico", "soy una chica", "soy pequeno", "soy pequena",
    "i m a minor", "im a minor", "i am a minor", "i m a kid", "im a kid", "i am a kid",
    "i m a child", "im a child", "i am a child", "i m underage", "i am underage"].map String.toList

/-- The ages of a child in words. -/
def kAgeWords : List Word :=
  ["uno", "dos", "tres", "cuatro", "cinco", "seis", "siete", "ocho", "nueve", "diez", "once", "doce",
    "trece", "catorce", "quince", "dieciseis", "diecisiete",
    "one", "two", "three", "four", "five", "six", "seven", "eight", "nine", "ten", "eleven",
    "twelve", "thirteen", "fourteen", "fifteen", "sixteen", "seventeen"].map String.toList

/-- The phrases that say nothing about the question. -/
def kFiller : List Word :=
  ["pues", "ps", "gracias", "senor", "senora", "senorita", "joven", "amigo", "amiga", "por favor",
    "porfa", "porfavor", "please", "thanks", "thank you", "oye", "oiga", "hola", "eh", "este", "mm",
    "mmm", "ah", "nomas"].map String.toList

/-- The phrases that mean yes although they have a no in them. -/
def kYesIdioms : List Word :=
  ["no hay problema", "no hay drama", "no problem", "why not", "por que no"].map String.toList

/-- The age from which a visitor is an adult. -/
def kAdultAge : ℕ := 18

/-- A phrase with a blank on both sides. -/
def needleOf (phrase : Word) : List Char := ' ' :: (phrase ++ [' '])

/-- Whether one of the phrases is in a text between spaces. -/
def hasPhrase (padded : List Char) (phrases : List Word) : Bool :=
  phrases.any fun phrase => (Words.find (needleOf phrase) padded).isSome

/-- The words of an answer without the wake word. -/
def answerWords (text : List UInt8) (wakeMaxDistance : ℤ) : List Word :=
  ((wakeWordsOf text).filter fun word => !isWakeWord word.folded wakeMaxDistance).map (·.folded)

/-- What an answer says to the question. -/
inductive ConsentAnswer where
  | none | yes | no
  deriving DecidableEq, Repr

/-- Every phrase of a list replaced, in the order of the list and each as often as it is found. -/
def replacePhrases (phrases : List Word) (repl : List Char) (padded : List Char) : List Char :=
  phrases.foldl (fun s phrase => Words.replaceLoop (needleOf phrase) repl s.length s) padded

/-- `consentAnswer`: a no is heard first; a yes only if nothing else is left of the words. -/
def consentAnswer (text : List UInt8) (maxWords wakeMaxDistance : ℤ) : ConsentAnswer :=
  let words := answerWords text wakeMaxDistance
  if words = [] ∨ (words.length : ℤ) > maxWords then .none
  else
    let padded := replacePhrases kYesIdioms " si ".toList (Words.padded ' ' words)
    if hasPhrase padded kNo then .no
    else if !hasPhrase padded kYes then .none
    else
      let rest := replacePhrases kFiller [' '] (replacePhrases kYes [' '] padded)
      if rest.all (· = ' ') then .yes else .none

/-! ### Minors -/

/-- The value of a digit. -/
def digitValue (c : Char) : ℕ := c.toNat - '0'.toNat

/-- A word that is the age of a child. -/
def childAge (word : Word) : Bool :=
  if word ≠ [] ∧ (word.all fun c => '0' ≤ c ∧ c ≤ '9') then
    if word.length > 2 then false
    else
      let age := word.foldl (fun age c => age * 10 + digitValue c) 0
      0 < age ∧ age < kAdultAge
  else word ∈ kAgeWords

/-- Whether the words state the age of a child. -/
def statesChildAge : List WakeWord → Bool
  | first :: age :: unit :: rest =>
    (childAge age.folded &&
      ((first.folded = "tengo".toList &&
          unit.folded ∈ ["anos".toList, "ano".toList, "anitos".toList]) ||
        (first.folded ∈ ["m".toList, "am".toList, "im".toList] &&
          unit.folded ∈ ["years".toList, "year".toList]))) ||
      statesChildAge (age :: unit :: rest)
  | _ => false

/-- Whether the visitor says that they are a child. -/
def minorStatement (text : List UInt8) : Bool :=
  hasPhrase (' ' :: (foldText text ++ [' '])) kMinorPhrases || statesChildAge (wakeWordsOf text)

/-! ### The turns -/

/-- The languages that are spoken. -/
inductive VoiceLang where
  | es | en
  deriving DecidableEq, Repr

/-- The question for consent. -/
def consentQuestion : VoiceLang → String
  | .en => "Hello, I'm this home's assistant. This conversation is kept. May I remember you next time? Please " ++
    "answer yes or no."
  | .es => "Hola, soy el asistente de esta casa. Esta conversación se guarda. ¿Me permite recordarle para la próxima " ++
    "vez? Responda sí o no."

/-- The question when it is asked again. -/
def consentAskAgain : VoiceLang → String
  | .en => "To help you with anything else, may I remember you? Please answer yes or no."
  | .es => "Para ayudarle con algo más, ¿me permite recordarle? Responda sí o no."

/-- What is said after a yes. -/
def consentThanks : VoiceLang → String
  | .en => "Thank you. How can I help you?"
  | .es => "Gracias. ¿En qué le puedo ayudar?"

/-- What is said after a no. -/
def consentDeclined : VoiceLang → String
  | .en => "Understood, I won't remember you."
  | .es => "Entendido, no le recordaré."

/-- What is said to a visitor who is not remembered. -/
def safetyOnlyLine : VoiceLang → String
  | .en => "I can pass your message on to the household. If this is an emergency, say \"help\"."
  | .es => "Puedo dejarle su mensaje a la casa. Si es una emergencia, diga «auxilio»."

/-- What the assistant is told when the visitor has agreed. -/
def consentGrantedNote : VoiceLang → String
  | .en => "The visitor agreed to be remembered. Keep to the visitor set: never confirm or deny that anyone is home."
  | .es => "El visitante aceptó que lo recuerdes. Sigue con lo de visitante: nunca confirmes ni niegues si hay alguien " ++
    "en casa."

/-- The consent of the visitor of a conversation. -/
inductive VisitorConsent where
  | none | asked | granted | declined
  deriving DecidableEq, Repr

/-- A turn of the visitor and the state of the consent. -/
structure ConsentTurnInput where
  consent : VisitorConsent := .asked
  text : List UInt8
  asked : ℤ := 1
  maxAsks : ℤ := 2
  maxWords : ℤ := 6
  wakeMaxDistance : ℤ := 2
  beforeQuestion : Bool := false
  lang : VoiceLang := .es

/-- What a turn does to the consent, and what is said. -/
structure ConsentTurn where
  consent : VisitorConsent := .asked
  toAssistant : Bool := false
  askedAgain : Bool := false
  minorStated : Bool := false
  line : String := ""
  deriving DecidableEq, Repr

/-- `consentTurn`: a turn of a visitor whose consent is asked for. -/
def consentTurn (input : ConsentTurnInput) : ConsentTurn :=
  if minorStatement input.text then
    { consent := .declined, minorStated := true, line := safetyOnlyLine input.lang }
  else if input.consent = .granted then { consent := .granted, toAssistant := true }
  else if input.consent = .declined then
    { consent := .declined, line := safetyOnlyLine input.lang }
  else if input.beforeQuestion then { consent := input.consent }
  else
    match consentAnswer input.text input.maxWords input.wakeMaxDistance with
    | .yes => { consent := .granted, line := consentThanks input.lang }
    | .no =>
      { consent := .declined
        line := consentDeclined input.lang ++ " " ++ safetyOnlyLine input.lang }
    | .none =>
      if input.asked < input.maxAsks then
        { consent := input.consent, askedAgain := true
          line := safetyOnlyLine input.lang ++ " " ++ consentAskAgain input.lang }
      else { consent := input.consent, line := safetyOnlyLine input.lang }

/-- How often the question is asked, and how answers are heard. -/
structure WatchConfig where
  visitorConsentAsks : ℤ := 2
  visitorConsentMaxWords : ℤ := 6
  wakeMaxDistance : ℤ := 2
  lang : VoiceLang := .es

/-- What a conversation keeps of the consent, from the question on. -/
structure Conversation where
  consent : VisitorConsent := .asked
  consentAsked : ℤ := 1
  wakeTurnPending : Bool := false
  minorStated : Bool := false
  pendingNotes : List String := []
  lines : List String := []

namespace Conversation

variable (config : WatchConfig)

/-- The conversation has asked; `wakeTurnPending` says that a turn from before the question is left.
-/
def started (wakeTurnPending : Bool) : Conversation where
  wakeTurnPending := wakeTurnPending
  lines := [consentQuestion config.lang]

/-- The turn that `consentHolds` takes. -/
def turn (s : Conversation) (text : List UInt8) : ConsentTurnInput where
  consent := s.consent
  text := text
  asked := s.consentAsked
  maxAsks := config.visitorConsentAsks
  maxWords := config.visitorConsentMaxWords
  wakeMaxDistance := config.wakeMaxDistance
  beforeQuestion := s.wakeTurnPending && mentionsWake text config.wakeMaxDistance
  lang := config.lang

/-- Whether the turn is passed to the assistant, and the conversation after it. -/
def consentHolds (s : Conversation) (text : List UInt8) : Bool × Conversation :=
  let step := consentTurn (s.turn config text)
  (step.toAssistant,
    { consent := step.consent
      consentAsked := if step.askedAgain then s.consentAsked + 1 else s.consentAsked
      wakeTurnPending := false
      minorStated := s.minorStated || step.minorStated
      pendingNotes :=
        if s.consent ≠ .granted ∧ step.consent = .granted then
          s.pendingNotes ++ [consentGrantedNote config.lang]
        else s.pendingNotes
      lines := if step.line ≠ "" then s.lines ++ [step.line] else s.lines })

end Conversation

end Consent

end Voice

end ArgusBackend
