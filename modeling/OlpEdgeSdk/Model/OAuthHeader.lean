import OlpEdgeSdk.Base.Decimal
import OlpEdgeSdk.Model.Base64
import OlpEdgeSdk.Model.Crypto
import OlpEdgeSdk.Model.StreamLayerQueue

/-!
# The signed authorization header

A sign-in is authorized by a header that names the key of the credentials and a nonce, and holds
a signature: the keyed hash of the method, the URL and the parameters, under the secret. The
nonce is a uuid and is taken as what it is printed as; the time is what `std::time` returns.

SOURCE: AuthenticationClient.cpp
-/

set_option autoImplicit false

namespace OlpEdgeSdk.Model.OAuth

open OlpEdgeSdk.Base
open OlpEdgeSdk.Model.Url (charByte encode)
open OlpEdgeSdk.Model.StreamLayerClientImpl (Uuid)

/-- The bytes of a text of the source. -/
def bytesOf (text : List Char) : List (BitVec 8) := text.map charByte

/-! ## Constants -/

/-- SOURCE: AuthenticationClient.cpp:59-63 -/
def paramAdd : List (BitVec 8) := bytesOf ['&']
def paramComma : List (BitVec 8) := bytesOf [',']
def paramEquals : List (BitVec 8) := bytesOf ['=']
def paramQuote : List (BitVec 8) := bytesOf ['"']
def lineFeed : BitVec 8 := charByte '\n'

/-- SOURCE: AuthenticationClient.cpp:67-73, 102-103 -/
def oauthPost : List (BitVec 8) := bytesOf "POST".toList
def oauthConsumerKey : List (BitVec 8) := bytesOf "oauth_consumer_key".toList
def oauthNonce : List (BitVec 8) := bytesOf "oauth_nonce".toList
def oauthSignature : List (BitVec 8) := bytesOf "oauth_signature".toList
def oauthTimestamp : List (BitVec 8) := bytesOf "oauth_timestamp".toList
def oauthVersion : List (BitVec 8) := bytesOf "oauth_version".toList
def oauthSignatureMethod : List (BitVec 8) := bytesOf "oauth_signature_method".toList
def version : List (BitVec 8) := bytesOf "1.0".toList
def hmacName : List (BitVec 8) := bytesOf "HMAC-SHA256".toList

/-! ## The header -/

/-- What is behind the first line feed is dropped.
SOURCE: AuthenticationClient.cpp:561-570 -/
def base64Encode (vector : List (BitVec 8)) : List (BitVec 8) :=
  (Base64.base64Encode vector).takeWhile (· ≠ lineFeed)

/-- SOURCE: AuthenticationClient.cpp:575 -/
def timeText (currentTime : ℤ) : List (BitVec 8) := bytesOf (decimal currentTime)

/-- SOURCE: AuthenticationClient.cpp:577-581 -/
def query (key uid : List (BitVec 8)) (currentTime : ℤ) : List (BitVec 8) :=
  oauthConsumerKey ++ paramEquals ++ key ++ paramAdd ++
    oauthNonce ++ paramEquals ++ uid ++ paramAdd ++ oauthSignatureMethod ++
    paramEquals ++ hmacName ++ paramAdd ++ oauthTimestamp ++ paramEquals ++
    timeText currentTime ++ paramAdd ++ oauthVersion ++ paramEquals ++ version

/-- SOURCE: AuthenticationClient.cpp:576-583 -/
def signatureBase (url key uid : List (BitVec 8)) (currentTime : ℤ) : List (BitVec 8) :=
  oauthPost ++ paramAdd ++ encode url ++ paramAdd ++ encode (query key uid currentTime)

/-- SOURCE: AuthenticationClient.cpp:584 -/
def encodeKey (secret : List (BitVec 8)) : List (BitVec 8) := secret ++ paramAdd

/-- A string of signed characters. -/
def chars (str : List (BitVec 8)) : List Int8 := str.map Int8.ofBitVec

/-- SOURCE: AuthenticationClient.cpp:587-597 -/
def authorization (key uid signature : List (BitVec 8)) (currentTime : ℤ) : List (BitVec 8) :=
  bytesOf "OAuth ".toList ++ oauthConsumerKey ++ paramEquals ++ paramQuote ++
    encode key ++ paramQuote ++ paramComma ++
    oauthNonce ++ paramEquals ++ paramQuote ++ encode uid ++
    paramQuote ++ paramComma ++ oauthSignatureMethod ++ paramEquals ++
    paramQuote ++ hmacName ++ paramQuote ++ paramComma ++ oauthTimestamp ++
    paramEquals ++ paramQuote ++ encode (timeText currentTime) ++ paramQuote ++
    paramComma ++ oauthVersion ++ paramEquals ++ paramQuote ++ version ++
    paramQuote ++ paramComma ++ oauthSignature ++ paramEquals ++ paramQuote ++
    encode signature ++ paramQuote

/-- `generateUid` has returned the uuid, and `fresh` is the memory of the hash function.
SOURCE: AuthenticationClient.cpp:572-600 -/
def generateHeader (fresh : Vector (BitVec 32) 64) (key secret url : List (BitVec 8))
    (uid : Uuid) (currentTime : ℤ) : Option (List (BitVec 8)) := do
  let uid := bytesOf uid.text
  let hmacResult ← Crypto.hmacSha256 fresh (chars (encodeKey secret))
    (chars (signatureBase url key uid currentTime))
  let signature := base64Encode hmacResult
  return authorization key uid signature currentTime

end OlpEdgeSdk.Model.OAuth
