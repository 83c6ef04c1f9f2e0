import WeatherStation.Weather.Determined
import WeatherStation.Weather.Fetch
import WeatherStation.Weather.JsonPrint

/-!
# From the text of a response to the globals

The weather parser on top of the text parser.  The layout of a response does not
matter: with any white space, escapes, numbers and order of members, the globals
hold what the text says.

Main results:

- Theorem {lit}`fetchWeather_of_derives`: the text of a complete response that
  arrives in one piece determines all members.
-/

open Foundation

namespace WeatherStation

/-- The parser of this repository on the text in front of a terminator. -/
def ParseEnv.ofSource (conv : CStr → CStr) : ParseEnv where
  cJSONParse data :=
    match JsonText.cJSONParse (data ++ [0]) with
    | .ok root => some root
    | _ => none
  utf82gbk := conv

theorem ParseEnv.cJSONParse_ofSource (conv : CStr → CStr) {t : List UInt8} {root : CJson}
    (h : JsonText.Derives (.item root) t) : (ParseEnv.ofSource conv).cJSONParse t = some root := by
  simp only [ParseEnv.ofSource, JsonText.cJSONParse_of_derives h []]

/-- What an exchange needs so that its response is parsed: everything is allocated, the
server accepts the request, and the body fits the buffer and arrives in one piece. -/
structure Exchange.Delivers (x : Exchange) (body : CStr) : Prop where
  weatherUrl : x.weatherUrl = true
  session : x.session = true
  respStatus : x.respStatus = 200
  buffer : x.buffer = true
  fits : body.strlen ≤ 4095
  contentLength : x.contentLength < 0 ∨ x.contentLength = body.strlen
  split : SplitOf body.bytes x.answers
  onePiece : x.answers.length ≤ 1

/-- The text of a complete response determines the globals: however it is laid out, a
fetch ends without an invalid access, every member holds what the text says, and every
name array holds its converted name as a terminated string. -/
theorem fetchWeather_of_derives {conv : CStr → CStr} {x : Exchange} {body : CStr}
    {root : CJson} {s : Field → CStr} {v : Field → Int} (hx : x.Delivers body)
    (htext : JsonText.Derives (.item root) body.bytes) (hresponse : CompleteResponse root s)
    (hs : Storable conv s v) (g : Globals) :
    (fetchWeather (.ofSource conv) x).result = .ok () ∧
    (∀ f : Field, f.read ((fetchWeather (.ofSource conv) x).run g) = f.expected conv s v) ∧
    ∀ n : NameField,
      CStr.ofBytes (((fetchWeather (.ofSource conv) x).run g).rt.read n.offset nameSize) =
        conv (s (.name n)) := by
  have hfetch : fetchWeather (.ofSource conv) x = weatherDataParse (.ofSource conv) body.bytes :=
    fetchWeather_of_one_piece (.ofSource conv) hx.weatherUrl hx.session hx.respStatus hx.buffer
      hx.fits hx.contentLength hx.split hx.onePiece
  have hdata := ParseEnv.cJSONParse_ofSource conv htext
  have hdetermined := decoding_determined hdata hresponse hs g g
  rw [hfetch]
  exact ⟨hdetermined.1, hdetermined.2.2.1, hdetermined.2.2.2⟩

end WeatherStation
