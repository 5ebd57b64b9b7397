import StarfieldDatastore.Netrc

/-! `.netrc` files as they are written, and what is read back from them. -/
namespace StarfieldDatastore.Netrc

/-- What may stand between two words: white space, or a comment up to the end of its line. -/
inductive Gap
  | space (c : Char) (h : isWhitespace c = true)
  | comment (text : List Char) (h : '\n' ∉ text)

def Gap.chars : Gap → List Char
  | .space c _ => [c]
  | .comment text _ => '#'::(text++['\n'])

/-- The last line may be a comment that no newline ends. -/
inductive Closing : List Char → Prop
  | clean : Closing []
  | comment (text : List Char) (h : '\n' ∉ text) : Closing ('#'::text)

def escape (c : Char) : List Char := if c = '"' || c = '\\' then ['\\',c] else [c]

def quote (value : List Char) : List Char := '"'::(value.flatMap escape++['"'])

/-- A word in quotes, or as it is where that is allowed. -/
inductive Spelled (bare : String → Prop) (word : String) : List Char → Prop
  | quoted : Spelled bare word (quote word.toList)
  | plain (h : bare word) : Spelled bare word word.toList

/-- The words of a text; all but the first have a gap in front. -/
inductive Written (bare : String → Prop) : Bool → List String → List Char → Prop
  | done {first text} (gaps : List Gap) (tail : List Char) (ht : Closing tail)
      (h : text = gaps.flatMap Gap.chars++tail) : Written bare first [] text
  | word {first word words text} (gaps : List Gap) (spelled rest : List Char)
      (hg : first = true ∨ gaps ≠ []) (hs : Spelled bare word spelled)
      (hw : Written bare false words rest)
      (h : text = gaps.flatMap Gap.chars++(spelled++rest)) :
      Written bare first (word::words) text

/-- A word that is read as one word without quotes. -/
def plain (word : String) : Prop :=
  word ≠ "" ∧ ∀ c ∈ word.toList, isWhitespace c = false ∧ c ≠ '"' ∧ c ≠ '\\' ∧ c ≠ '#'

/-- A login and a password for one machine, or the ones for any other. -/
structure MachineEntry where
  machine : Option String
  login : String
  password : String
  passwordFirst : Bool

def MachineEntry.header (e : MachineEntry) : List String :=
  match e.machine with
  | some name => ["machine",name]
  | none => ["default"]

def MachineEntry.words (e : MachineEntry) : List String :=
  e.header ++ if e.passwordFirst then ["password",e.password,"login",e.login]
    else ["login",e.login,"password",e.password]

def MachineEntry.credential (e : MachineEntry) : Credential := .basic e.login e.password

namespace Scanner

/-- Outside quotes and comments. -/
abbrev plain (tokens : List String) (token : List Char) : Scanner := ⟨tokens,token,false,false,false⟩

theorem flush_flush (s : Scanner) : s.flush.flush = s.flush := by
  unfold flush
  by_cases h : s.token = [] <;> simp [h]

theorem flush_plain (tokens : List String) (token : List Char) :
    ∃ tokens', (plain tokens token).flush = plain tokens' [] := by
  unfold flush
  by_cases h : token = []
  · exact ⟨tokens,by simp [h]⟩
  · exact ⟨tokens++[String.ofList token],by simp [h]⟩

theorem next_space {c : Char} (h : isWhitespace c = true) (tokens : List String)
    (token : List Char) : next (plain tokens token) c = (plain tokens token).flush := by
  have h1 : c ≠ '\\' := fun e => by subst e; revert h; decide
  have h2 : c ≠ '"' := fun e => by subst e; revert h; decide
  have h3 : c ≠ '#' := fun e => by subst e; revert h; decide
  simp [next,scan,h,h1,h2,h3]

theorem foldl_comment {text : List Char} (h : '\n' ∉ text) (tokens : List String)
    (token : List Char) :
    text.foldl next ⟨tokens,token,false,false,true⟩ = ⟨tokens,token,false,false,true⟩ := by
  induction text with
  | nil => rfl
  | cons c text ih =>
    have hc : c ≠ '\n' := fun e => h (by simp [e])
    rw [List.foldl_cons]
    rw [show next ⟨tokens,token,false,false,true⟩ c = ⟨tokens,token,false,false,true⟩ by
      simp [next,hc]]
    exact ih fun hm => h (by simp [hm])

theorem next_hash (tokens : List String) (token : List Char) :
    next (plain tokens token) '#' = { (plain tokens token).flush with comment := true } := by
  unfold next scan flush
  by_cases h : token = [] <;> simp [h]

theorem foldl_gap (gap : Gap) (tokens : List String) (token : List Char) :
    gap.chars.foldl next (plain tokens token) = (plain tokens token).flush := by
  cases gap with
  | space c h => exact next_space h tokens token
  | comment text h =>
    obtain ⟨tokens',ht⟩ := flush_plain tokens token
    rw [Gap.chars,List.foldl_cons,next_hash,ht,List.foldl_append,foldl_comment h]
    simp [next,scan,flush]
    decide

theorem foldl_gaps {gaps : List Gap} (h : gaps ≠ []) (tokens : List String) (token : List Char) :
    (gaps.flatMap Gap.chars).foldl next (plain tokens token) = (plain tokens token).flush := by
  induction gaps generalizing tokens token with
  | nil => exact absurd rfl h
  | cons gap gaps ih =>
    rw [List.flatMap_cons,List.foldl_append,foldl_gap]
    cases gaps with
    | nil => rfl
    | cons gap' gaps =>
      obtain ⟨tokens',ht⟩ := flush_plain tokens token
      rw [ht,ih (by simp),← ht,flush_flush]

theorem foldl_escape (value : List Char) (tokens : List String) (token : List Char) :
    (value.flatMap escape).foldl next ⟨tokens,token,true,false,false⟩ =
      ⟨tokens,token++value,true,false,false⟩ := by
  induction value generalizing token with
  | nil => simp
  | cons c value ih =>
    rw [List.flatMap_cons,List.foldl_append]
    have hc : (escape c).foldl next ⟨tokens,token,true,false,false⟩ =
        ⟨tokens,token++[c],true,false,false⟩ := by
      unfold escape
      split
      next h => simp [next,scan]
      next h =>
        simp only [Bool.or_eq_true,decide_eq_true_eq,not_or] at h
        simp [next,scan,h.1,h.2]
    rw [hc,ih,List.append_assoc,List.singleton_append]

theorem foldl_quote (value : List Char) (tokens : List String) :
    (quote value).foldl next (plain tokens []) = plain tokens value := by
  have h : next (plain tokens []) '"' = ⟨tokens,[],true,false,false⟩ := by simp [next,scan]
  rw [quote,List.foldl_cons,h,List.foldl_append,foldl_escape]
  simp [next,scan]

theorem foldl_bare {value : List Char}
    (h : ∀ c ∈ value, isWhitespace c = false ∧ c ≠ '"' ∧ c ≠ '\\' ∧ c ≠ '#')
    (tokens : List String) (token : List Char) :
    value.foldl next (plain tokens token) = plain tokens (token++value) := by
  induction value generalizing token with
  | nil => simp
  | cons c value ih =>
    obtain ⟨h1,h2,h3,h4⟩ := h c (by simp)
    have hc : next (plain tokens token) c = plain tokens (token++[c]) := by
      simp [next,scan,h1,h2,h3,h4]
    rw [List.foldl_cons,hc,ih (fun c hc => h c (by simp [hc])),List.append_assoc,
      List.singleton_append]

theorem foldl_spelled {word : String} {spelled : List Char} (h : Spelled Netrc.plain word spelled)
    (tokens : List String) : spelled.foldl next (plain tokens []) = plain tokens word.toList := by
  cases h with
  | quoted => exact foldl_quote word.toList tokens
  | plain h => exact foldl_bare h.2 tokens []

theorem flush_word {word : String} (h : word ≠ "") (tokens : List String) :
    (plain tokens word.toList).flush = plain (tokens++[word]) [] := by
  have hn : word.toList ≠ [] := fun e => h (String.toList_eq_nil_iff.mp e)
  simp [flush,hn]

/-- Between two words nothing is lost. -/
theorem foldl_between (gaps : List Gap) (tokens : List String) (token : List Char) :
    ∃ tokens' token', (gaps.flatMap Gap.chars).foldl next (plain tokens token) =
      plain tokens' token' ∧ (plain tokens' token').flush = (plain tokens token).flush := by
  by_cases hg : gaps = []
  · exact ⟨tokens,token,by simp [hg],rfl⟩
  · obtain ⟨tokens',ht⟩ := flush_plain tokens token
    refine ⟨tokens',[],by rw [foldl_gaps hg,ht],?_⟩
    rw [← ht,flush_flush]

theorem foldl_closing {tail : List Char} (h : Closing tail) (tokens : List String)
    (token : List Char) : let s := tail.foldl next (plain tokens token)
    s.quoted = false ∧ s.escaped = false ∧ s.flush.tokens = (plain tokens token).flush.tokens := by
  cases h with
  | clean => exact ⟨rfl,rfl,rfl⟩
  | comment text h =>
    obtain ⟨tokens',ht⟩ := flush_plain tokens token
    rw [List.foldl_cons,next_hash,ht,foldl_comment h]
    exact ⟨rfl,rfl,rfl⟩

/-- The words of a text are its tokens. -/
theorem foldl_written {first : Bool} {words : List String} {text : List Char}
    (h : Written Netrc.plain first words text) (hw : ∀ word ∈ words, word ≠ "")
    (tokens : List String) (token : List Char) (hfirst : first = true → token = []) :
    let s := text.foldl next (plain tokens token)
    s.quoted = false ∧ s.escaped = false ∧
      s.flush.tokens = (plain tokens token).flush.tokens++words := by
  induction h generalizing tokens token with
  | done gaps tail ht h =>
    obtain ⟨tokens',token',hg,hf⟩ := foldl_between gaps tokens token
    rw [h,List.foldl_append,hg,List.append_nil,← hf]
    exact foldl_closing ht tokens' token'
  | @word first word words text gaps spelled rest hg hs _ h ih =>
    have hgap : (gaps.flatMap Gap.chars).foldl next (plain tokens token) =
        (plain tokens token).flush := by
      by_cases hn : gaps = []
      · have ht : token = [] := hfirst (hg.resolve_right fun e => e hn)
        simp [hn,ht,flush]
      · exact foldl_gaps hn tokens token
    obtain ⟨tokens',ht⟩ := flush_plain tokens token
    rw [h,List.foldl_append,hgap,ht,List.foldl_append,foldl_spelled hs]
    have hrest := ih (fun w hm => hw w (by simp [hm])) tokens' word.toList (by simp)
    rw [flush_word (hw word (by simp))] at hrest
    simpa using hrest

end Scanner

theorem tokenize_written {words : List String} {text : String}
    (h : Written plain true words text.toList) (hw : ∀ word ∈ words, word ≠ "") :
    tokenize text = .ok words := by
  obtain ⟨hq,he,ht⟩ := Scanner.foldl_written h hw [] [] (fun _ => rfl)
  simp only [tokenize,Scanner.start,hq,he]
  simp only [ht]
  rfl

theorem fields_entry (host : String) (machine user password : Option String) (e : MachineEntry)
    (rest : List String) : fields host machine user password (e.words++rest) =
      if machine = some host then netrcCredential user password
      else fields host e.machine (some e.login) (some e.password) rest := by
  obtain ⟨name,login,pass,passwordFirst⟩ := e
  cases name <;> cases passwordFirst <;> simp [MachineEntry.words,MachineEntry.header,fields]

/-- The entry of the host that has been read is not given up for a later one. -/
theorem fields_own (host login password : String) (es : List MachineEntry) :
    fields host (some host) (some login) (some password) (es.flatMap MachineEntry.words) =
      .ok (some (.basic login password)) := by
  cases es with
  | nil => simp [fields,netrcCredential]
  | cons e es => rw [List.flatMap_cons,fields_entry,if_pos rfl]; rfl

/-- The first machine entry of a host. -/
def credentialOf (es : List MachineEntry) (host : String) : Option Credential :=
  (es.find? (·.machine = some host)).map MachineEntry.credential

theorem fields_entries {host : String} {machine : Option String} (h : machine ≠ some host)
    (user password : Option String) (es : List MachineEntry) :
    fields host machine user password (es.flatMap MachineEntry.words) = .ok (credentialOf es host) := by
  induction es generalizing machine user password with
  | nil => simp [fields,h,credentialOf]
  | cons e es ih =>
    rw [List.flatMap_cons,fields_entry,if_neg h]
    by_cases he : e.machine = some host
    · rw [he,fields_own]
      simp [credentialOf,he,MachineEntry.credential]
    · rw [ih he]
      simp [credentialOf,he]

/-- Reading back what was written. -/
theorem parseNetrc_written {es : List MachineEntry} {text : String}
    (h : Written plain true (es.flatMap MachineEntry.words) text.toList)
    (hw : ∀ word ∈ es.flatMap MachineEntry.words, word ≠ "") (host : String) :
    parseNetrc text host = .ok (credentialOf es host) := by
  rw [parseNetrc,tokenize_written h hw]
  exact fields_entries (by simp) none none es

/-- A word, in quotes or not. -/
def spell (word : String × Bool) : List Char :=
  if word.2 then quote word.1.toList else word.1.toList

theorem written_spaced {bare : String → Prop} {first : Bool} {l : List (String × Bool)}
    {text : List Char} (h : ∀ w ∈ l, w.2 = true ∨ bare w.1)
    (ht : text = l.flatMap fun w => ' '::spell w) :
    Written bare first (l.map (·.1)) text := by
  subst ht
  induction l generalizing first with
  | nil => exact .done [] [] .clean rfl
  | cons w l ih =>
    have hs : Spelled bare w.1 (spell w) := by
      obtain ⟨word,quoted⟩ := w
      cases quoted with
      | true => exact .quoted
      | false => exact .plain ((h _ (by simp)).resolve_left (by simp))
    exact .word [.space ' ' rfl] (spell w) _ (.inr (by simp)) hs
      (ih fun w hw => h w (by simp [hw])) rfl

theorem parseNetrc_written_quoted :
    parseNetrc " default login x password y machine a.b password \"c d\" login me" "a.b" =
      .ok (some (.basic "me" "c d")) := by
  have h : Written plain true ([⟨none,"x","y",false⟩,⟨some "a.b","me","c d",true⟩].flatMap
      MachineEntry.words)
      " default login x password y machine a.b password \"c d\" login me".toList :=
    written_spaced (l := [("default",false),("login",false),("x",false),("password",false),
      ("y",false),("machine",false),("a.b",false),("password",false),("c d",true),
      ("login",false),("me",false)]) (by simp [plain]; decide) (by decide)
  exact parseNetrc_written h (by decide) "a.b"

/-- The values that the first character alone tells from a comment. -/
def unquoted (word : String) : Prop :=
  word ≠ "" ∧ (∀ c ∈ word.toList, isWhitespace c = false ∧ c ≠ '"' ∧ c ≠ '\\') ∧
    word.toList.head? ≠ some '#'

theorem fields_incomplete :
    fields "a" none none none ["machine","a","login","b","password"] =
      .error (.config "incomplete .netrc entry") := by
  simp [fields]

/-- A `#` inside a value without quotes starts a comment, and an empty value is not read. -/
theorem written_lost :
    (¬ ∀ (es : List MachineEntry) (text : String),
      Written unquoted true (es.flatMap MachineEntry.words) text.toList →
      (∀ word ∈ es.flatMap MachineEntry.words, word ≠ "") →
      ∀ host, parseNetrc text host = .ok (credentialOf es host)) ∧
    ¬ ∀ (es : List MachineEntry) (text : String),
      Written plain true (es.flatMap MachineEntry.words) text.toList →
      ∀ host, parseNetrc text host = .ok (credentialOf es host) := by
  constructor
  · intro h
    have hread := h [⟨some "a","b","c#d",false⟩] " machine a login b password c#d"
      (written_spaced (l := [("machine",false),("a",false),("login",false),("b",false),
        ("password",false),("c#d",false)]) (by simp [unquoted]; decide) (by decide)) (by decide) "a"
    have hcode : parseNetrc " machine a login b password c#d" "a" =
        .ok (some (.basic "b" "c")) := by
      rw [parseNetrc,show tokenize " machine a login b password c#d" =
        .ok ["machine","a","login","b","password","c"] from rfl]
      exact @fields_entries "a" none (by simp) none none [⟨some "a","b","c",false⟩]
    rw [hcode] at hread
    simp [credentialOf,MachineEntry.credential] at hread
  · intro h
    have hread := h [⟨some "a","b","",false⟩] " machine a login b password \"\""
      (written_spaced (l := [("machine",false),("a",false),("login",false),("b",false),
        ("password",false),("",true)]) (by simp [plain]; decide) (by decide)) "a"
    have hcode : parseNetrc " machine a login b password \"\"" "a" =
        .error (.config "incomplete .netrc entry") := by
      rw [parseNetrc,show tokenize " machine a login b password \"\"" =
        .ok ["machine","a","login","b","password"] from rfl]
      exact fields_incomplete
    rw [hcode] at hread
    cases hread

end StarfieldDatastore.Netrc
