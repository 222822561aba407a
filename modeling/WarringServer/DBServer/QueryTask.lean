import WarringServer.DBServer.Database
import WarringServer.Lib.Job

/-!
# QueryTask — the handlers of the database server

Model of `QueryTask.cpp` and of the part of `RCache` and `DBServConf` it uses. A handler
gets a carrier and mutates it in place; here it returns the carrier. It is a `Job`: what
it has done to the database and the cache before an exception stays.

`Drivers` is what a `QueryTask` is constructed with: `mDB`, `mCache` and
`mServRegRedis`, over the state `σ` of what is behind them. They may throw. It also
holds what the language leaves open: the text of a `double`, and the value of an `int`
that nobody assigned. The carriers `LoginMessage` and `GameMessage` have the same
fields, and are one type here.
-/

namespace WarringServer.DBServer

open Message

-- ---------------------------------------------------------------------------
-- Configuration and codes
-- ---------------------------------------------------------------------------

namespace DBServConf

/-- The TYPE of a carrier that asks to register or to log in. -/
def MESSAGE_LOGIN_LOGIN_MSG : Bytes := literal "LOGIN_LOGIN_MSG"
/-- The TYPE of one that is about a character of an account. -/
def MESSAGE_LOGIN_LOGIN_CHARACTER_MSG : Bytes := literal "LOGIN_LOGIN_CHARACTER_MSG"
/-- The name that the answers to both bear. -/
def MESSAGE_LOGIN_LOGIN_RESPONSE_MSG : Bytes := literal "LOGIN_LOGIN_RESPONSE_MSG"
/-- The TYPE of a carrier that a handler has refused: the reader deletes its entry. -/
def MESSAGE_LOGIN_ERROR_MSG : Bytes := literal "LOGIN_ERROR_MSG"
def MESSAGE_GAME_MSG : Bytes := literal "GAME_MSG"
/-- The TYPE of a load or an upload, and the name of the answer to a load. -/
def MESSAGE_GAME_CHARACTER_MSG : Bytes := literal "GAME_CHARACTER_MSG"
def MESSAGE_GAME_ERROR_MSG : Bytes := literal "GAME_ERROR_MSG"
/-- The stream that the login servers push their requests onto. -/
def BROKER_DB_4_LOGIN_KEY : Bytes := literal "Warring:DBServ4LoginServ"
/-- That of the game servers. -/
def BROKER_DB_4_GAME_KEY : Bytes := literal "Warring:DBServ4GameServ"
/-- A service with less than half of that to live is passed over. -/
def SERVICE_LOSE_THRESHOLD_IN_SECONDS : Nat := 15
def GATEWAY_KEYS : Bytes := literal "Warring:Service:GATEWAYS"
def SERVICE_DS_PREFIX : Bytes := literal "Warring:Scene:"

end DBServConf

namespace code

/-- What a response says if no case has answered. -/
def NONE : Nat := 0

namespace login

def LOGIN_REGISTER_REQUEST_CODE : Nat := 10
def LOGIN_LOGIN_REQUEST_CODE : Nat := 20
def LOGIN_CREATE_CHARACTER_CODE : Nat := 50
def LOGIN_DELETE_CHARACTER_CODE : Nat := 60
def LOGIN_CHARACTER_ENTER_GAME_CODE : Nat := 70
def LOGIN_REGISTER_RESULT_SUCCESS : Nat := 10010
def LOGIN_LOGIN_RESULT_SUCCESS : Nat := 10020
def LOGIN_CREATE_CHARACTER_RESULT_SUCCESS : Nat := 10050
def LOGIN_DELETE_CHARACTER_RESULT_SUCCESS : Nat := 10060
/-- The character may go to the gateway and the server that come with it. -/
def LOGIN_CHARACTER_ENTERING : Nat := 10071
def LOGIN_REGISTER_ERROR_ACCOUNT_EXISTED : Nat := 30011
def LOGIN_LOGIN_ERROR_ACCOUNT_PASSWORD_MISMATCH : Nat := 30022
def LOGIN_LOGIN_ERROR_ACCOUNT_ALREADY_ON : Nat := 30023
def LOGIN_CREATE_CHARACTER_ERROR_EXISTED : Nat := 30051
def LOGIN_DELETE_CHARACTER_ERROR_NO_EXISTED : Nat := 30061
def LOGIN_CHARACTER_ERROR_ACCOUNT_MISMATCH : Nat := 30071
/-- There is no gateway, or no server for the scene. -/
def LOGIN_ERROR_NO_SUCH_SERVICE : Nat := 30098
def LOGIN_ERROR_FROM_DB : Nat := 30099

end login

namespace game

def GAME_LOAD_CHARACTER_CODE : Nat := 240
def GAME_UPLOAD_CHARACTER_CODE : Nat := 250
/-- The upload of a player who leaves: the cached character may expire behind it. -/
def GAME_LAST_UPLOAD_CHARACTER_CODE : Nat := 251
def GAME_LOAD_CHARACTER_SUCCESS : Nat := 10240
def GAME_LOAD_CHARACTER_ERROR : Nat := 30240

end game

end code

-- ---------------------------------------------------------------------------
-- What a task works with
-- ---------------------------------------------------------------------------

/-- What stops a handler. -/
inductive Fault where
  | decode (fault : DecodeFault)
  /-- An exception of a driver. -/
  | driver
  /-- An `assert`, or an exception of the standard library. -/
  | standard
deriving Repr, DecidableEq

/-- A handler may fault, and works on what is behind the drivers. -/
abbrev Task (σ α : Type) := Job Fault σ α

/-- `mDB`, `mCache` and `mServRegRedis`. -/
structure Drivers (σ : Type) where
  addNewAccount (accountName password address : Bytes) : Task σ Int
  addNewCharacter (newCharacter : LoginCharacterRequestMessage) : Task σ Int
  removeCharacter (accountName characterName : Bytes) : Task σ Int
  updateCharacter (characterInfo : CharacterInfo) (last : Bool) : Task σ Int
  matchAccountAndUpdateLoginState (accountName password : Bytes) : Task σ Int
  getAllCharacterBaseInfoFill2Message (accountName : Bytes) :
    Task σ (Option (List CharacterBaseInfo))
  getOneCharacterInfoFill2Message (accountName characterName : Bytes) :
    Task σ (Option CharacterInfo)
  addCharacter (characterKey : Bytes) (characterInfo : List (Bytes × Bytes)) : Task σ Int
  setTTL (characterKey : Bytes) (secs : Nat) : Task σ (Option Bool)
  /-- The result code and the output parameter. -/
  getCharacterData (characterKey : Bytes) : Task σ (Int × Bytes)
  /-- The members, in ascending order of their scores. -/
  zrangebyscore (key : Bytes) : Task σ (List Bytes)
  ttl (key : Bytes) : Task σ Int
  /-- `std::to_string` of a `double`. -/
  doubleText (v : CDouble) : Bytes
  /-- An `int` without an initial value. -/
  indeterminate : CInt

/-- `LoginMessage` and `GameMessage` of `message_carrier`. -/
structure Carrier where
  type : Bytes
  service : Bytes
  nextService : Bytes
  clientId : Bytes
  clientAddress : Bytes
  message : Bytes
deriving Repr, DecidableEq

/-- `RCache::generateCharacterKey` -/
def generateCharacterKey (accountName characterName : Bytes) : Bytes :=
  accountName ++ literal ":" ++ characterName

/-- `std::to_string` of an `int`. -/
def intText (v : CInt) : Bytes := literal (toString v.toInt)

/-- `deserialize`, as far as the handler sees it. -/
def decoded {σ α : Type} (r : Except DecodeFault α) : Task σ α :=
  Job.ofExcept (r.mapError .decode)

-- ---------------------------------------------------------------------------
-- Services
-- ---------------------------------------------------------------------------

/-- `std::stoi` -/
def stoi (str : Bytes) : Except Fault CInt :=
  let str := str.dropWhile fun c => c = 32 ∨ (9 ≤ c ∧ c ≤ 13)
  let (negative, str) := match str with
    | 45 :: str => (true, str)
    | 43 :: str => (false, str)
    | str => (false, str)
  let digits := str.takeWhile fun c => 48 ≤ c ∧ c ≤ 57
  let n : Nat := digits.foldl (fun n c => 10 * n + (c.toNat - 48)) 0
  let v : Int := if negative then -n else n
  if digits = [] then
    .error .standard
  else if -(2 ^ 31) ≤ v ∧ v < 2 ^ 31 then
    .ok (.ofInt _ v)
  else
    .error .standard

/-- The parts of a key between colons. An empty part at the end is not yielded. -/
def keyParts (serviceKey : Bytes) : List Bytes :=
  let parts := serviceKey.splitOn 58
  if parts.length ≠ 1 ∧ parts.getLast? = some [] then parts.dropLast else parts

/-- The last two parts of a key are an address. `stoi` throws where the port is no number. -/
def getServiceAddress (serviceKey : Bytes) : Except Fault (Option (Bytes × CInt)) :=
  if serviceKey = [] then
    .ok none
  else
    match (keyParts serviceKey).reverse with
    | port :: ip :: _ => (stoi port).map fun port => some (ip, port)
    | _ => .error .standard

section

variable {σ : Type}

/-- The loop of `getLowLoadService`. The `long long` that `ttl` returns is compared with
a `size_t`. -/
def lowLoad (d : Drivers σ) : List Bytes → Task σ Bytes
  | [] => return []
  | key :: result => do
    let ttl ← d.ttl key
    -- no expiry and no such key are negative, and huge as a `size_t`
    if (BitVec.ofInt 64 ttl).toNat ≥ DBServConf.SERVICE_LOSE_THRESHOLD_IN_SECONDS / 2 then
      return key
    else
      lowLoad d result

/-- `ZRANGEBYSCORE` yields the services by their load. -/
def getLowLoadService (d : Drivers σ) (serviceKey : Bytes) : Task σ Bytes := do
  let result ← d.zrangebyscore serviceKey
  lowLoad d result

-- ---------------------------------------------------------------------------
-- Login
-- ---------------------------------------------------------------------------

/-- `loginResMsg` with its initial values. -/
def loginResMsg (d : Drivers σ) : LoginResponseMessage where
  responseCode := code.NONE
  token := []
  gameGatewayIp := []
  gameGatewayPort := d.indeterminate
  gameDsIp := []
  gameDsPort := d.indeterminate
  characterBaseInfoMessages := []

/-- A handler's TYPE check has failed. -/
def Carrier.refused (carrier : Carrier) (errorMsg : Bytes) : Carrier :=
  { carrier with type := errorMsg }

/-- The next service is the one that sent the request. -/
def Carrier.answering (carrier : Carrier) (key : Bytes) : Carrier :=
  { carrier with nextService := carrier.service, service := key }

/-- The case of `LOGIN_REGISTER_REQUEST_CODE`. -/
def registerAccount (d : Drivers σ) (loginReqMsg : LoginRequestMessage) (clientAddress : Bytes) :
    Task σ LoginResponseMessage := do
  let result ← d.addNewAccount loginReqMsg.account loginReqMsg.password clientAddress
  let responseCode :=
    if result = 1 then code.login.LOGIN_REGISTER_RESULT_SUCCESS
    else if result = 0 then code.login.LOGIN_REGISTER_ERROR_ACCOUNT_EXISTED
    else code.login.LOGIN_ERROR_FROM_DB
  return { loginResMsg d with responseCode := responseCode }

/-- The case of `LOGIN_LOGIN_REQUEST_CODE`: with the login come the characters of the account. -/
def loginAccount (d : Drivers σ) (loginReqMsg : LoginRequestMessage) :
    Task σ LoginResponseMessage := do
  let result ← d.matchAccountAndUpdateLoginState loginReqMsg.account loginReqMsg.password
  if result = 1 then
    let charactersBaseInfo ← d.getAllCharacterBaseInfoFill2Message loginReqMsg.account
    return { loginResMsg d with
      responseCode := code.login.LOGIN_LOGIN_RESULT_SUCCESS
      characterBaseInfoMessages :=
        (charactersBaseInfo.getD []).map fun baseInfo => packed MSG_NAME_NONE baseInfo.members }
  else
    let responseCode :=
      if result = 0 then code.login.LOGIN_LOGIN_ERROR_ACCOUNT_PASSWORD_MISMATCH
      else if result = 2 then code.login.LOGIN_LOGIN_ERROR_ACCOUNT_ALREADY_ON
      else code.login.LOGIN_ERROR_FROM_DB
    return { loginResMsg d with responseCode := responseCode }

/-- The `switch` of `getLoginResponseMsg`. -/
def answerLogin (d : Drivers σ) (loginReqMsg : LoginRequestMessage) (clientAddress : Bytes) :
    Task σ LoginResponseMessage :=
  if loginReqMsg.requestCode = code.login.LOGIN_REGISTER_REQUEST_CODE then
    registerAccount d loginReqMsg clientAddress
  else if loginReqMsg.requestCode = code.login.LOGIN_LOGIN_REQUEST_CODE then
    loginAccount d loginReqMsg
  else
    return loginResMsg d

/-- The handler of `LOGIN_LOGIN_MSG`. -/
def getLoginResponseMsg (d : Drivers σ) (loginMsgCarrier : Carrier) : Task σ Carrier :=
  if loginMsgCarrier.type ≠ DBServConf.MESSAGE_LOGIN_LOGIN_MSG then
    return loginMsgCarrier.refused DBServConf.MESSAGE_LOGIN_ERROR_MSG
  else do
    let loginReqMsg ← decoded (LoginRequestMessage.deserialize loginMsgCarrier.message)
    -- turned round before the request is looked at
    let carrier := loginMsgCarrier.answering DBServConf.BROKER_DB_4_LOGIN_KEY
    let res ← answerLogin d loginReqMsg carrier.clientAddress
    return { carrier with
      message := packed DBServConf.MESSAGE_LOGIN_LOGIN_RESPONSE_MSG res.members }

-- ---------------------------------------------------------------------------
-- Characters of an account
-- ---------------------------------------------------------------------------

/-- The case of `LOGIN_CREATE_CHARACTER_CODE`. -/
def createCharacter (d : Drivers σ) (loginCharacterReqMsg : LoginCharacterRequestMessage) :
    Task σ LoginResponseMessage := do
  let result ← d.addNewCharacter loginCharacterReqMsg
  let responseCode :=
    if result = 1 then code.login.LOGIN_CREATE_CHARACTER_RESULT_SUCCESS
    else if result = 0 then code.login.LOGIN_CREATE_CHARACTER_ERROR_EXISTED
    else code.login.LOGIN_ERROR_FROM_DB
  return { loginResMsg d with responseCode := responseCode }

/-- The case of `LOGIN_DELETE_CHARACTER_CODE`. -/
def deleteCharacter (d : Drivers σ) (loginCharacterReqMsg : LoginCharacterRequestMessage) :
    Task σ LoginResponseMessage := do
  let result ← d.removeCharacter loginCharacterReqMsg.account loginCharacterReqMsg.characterName
  let responseCode :=
    if result = 1 then code.login.LOGIN_DELETE_CHARACTER_RESULT_SUCCESS
    else if result = 0 then code.login.LOGIN_DELETE_CHARACTER_ERROR_NO_EXISTED
    else code.login.LOGIN_ERROR_FROM_DB
  return { loginResMsg d with responseCode := responseCode }

/-- The game gateway and the dedicated server that a character enters the game on. The
code that looks for them is there twice. -/
def enterServices (d : Drivers σ) (sceneKey : Bytes) : Task σ LoginResponseMessage := do
  let lowGatewayAddress ← getLowLoadService d DBServConf.GATEWAY_KEYS
  let lowSceneAddress ← getLowLoadService d sceneKey
  let noSuchService : LoginResponseMessage :=
    { loginResMsg d with responseCode := code.login.LOGIN_ERROR_NO_SUCH_SERVICE }
  if lowGatewayAddress = [] ∨ lowSceneAddress = [] then
    return noSuchService
  else
    let gateway ← Job.ofExcept (getServiceAddress lowGatewayAddress)
    -- the scene key is checked, the address of the scene is used
    let scene ← Job.ofExcept (getServiceAddress sceneKey)
    match gateway, scene with
    | some (gatewayIp, gatewayPort), some _ =>
      let ds ← Job.ofExcept (getServiceAddress lowSceneAddress)
      let (dsIp, dsPort) := ds.getD ([], 0)
      return { loginResMsg d with
        responseCode := code.login.LOGIN_CHARACTER_ENTERING
        gameGatewayIp := gatewayIp
        gameGatewayPort := gatewayPort
        gameDsIp := dsIp
        gameDsPort := dsPort }
    | _, _ => return noSuchService

/-- The fields of a cached character. -/
def characterFields (d : Drivers σ) (info : CharacterInfo) : List (Bytes × Bytes) :=
  [(literal "account", info.account),
    (literal "name", info.name),
    (literal "level", intText info.level),
    (literal "gender", literal (if info.gender then "true" else "false")),
    (literal "occuption", intText info.occuption),
    (literal "state", intText info.state),
    (literal "exp", intText info.exp),
    (literal "health", intText info.health),
    (literal "mana", intText info.mana),
    (literal "armor", intText info.armor),
    (literal "stamina", intText info.stamina),
    (literal "strength", intText info.strength),
    (literal "agility", intText info.agility),
    (literal "intellect", intText info.intellect),
    (literal "scene_id", intText info.sceneId),
    (literal "scene_x", d.doubleText info.sceneX),
    (literal "scene_y", d.doubleText info.sceneY),
    (literal "scene_z", d.doubleText info.sceneZ),
    (literal "character_data", info.serialize)]

/-- The case of `LOGIN_CHARACTER_ENTER_GAME_CODE`. The character is cached for the game server to
load. -/
def characterEnterGame (d : Drivers σ) (account characterName : Bytes) :
    Task σ LoginResponseMessage := do
  let result ← d.getOneCharacterInfoFill2Message account characterName
  match result with
  | none =>
    return { loginResMsg d with
      responseCode := code.login.LOGIN_CHARACTER_ERROR_ACCOUNT_MISMATCH }
  | some info =>
    let characterKey := generateCharacterKey account characterName
    let sceneKey := DBServConf.SERVICE_DS_PREFIX ++ intText info.sceneId
    let ttlResult ← d.setTTL characterKey 300
    match ttlResult with
    | some true => enterServices d sceneKey
    | some false =>
      -- not cached yet
      let _ ← d.addCharacter characterKey (characterFields d info)
      let _ ← d.setTTL characterKey 300
      enterServices d sceneKey
    | none => return { loginResMsg d with responseCode := code.login.LOGIN_ERROR_FROM_DB }

/-- The `switch` of `getLoginCharacterResponseMsg`. -/
def answerLoginCharacter (d : Drivers σ) (loginCharacterReqMsg : LoginCharacterRequestMessage) :
    Task σ LoginResponseMessage :=
  if loginCharacterReqMsg.requestCode = code.login.LOGIN_CREATE_CHARACTER_CODE then
    createCharacter d loginCharacterReqMsg
  else if loginCharacterReqMsg.requestCode = code.login.LOGIN_DELETE_CHARACTER_CODE then
    deleteCharacter d loginCharacterReqMsg
  else if loginCharacterReqMsg.requestCode = code.login.LOGIN_CHARACTER_ENTER_GAME_CODE then
    characterEnterGame d loginCharacterReqMsg.account loginCharacterReqMsg.characterName
  else
    return loginResMsg d

/-- The handler of `LOGIN_LOGIN_CHARACTER_MSG`. -/
def getLoginCharacterResponseMsg (d : Drivers σ) (loginMsgCarrier : Carrier) : Task σ Carrier :=
  if loginMsgCarrier.type ≠ DBServConf.MESSAGE_LOGIN_LOGIN_CHARACTER_MSG then
    return loginMsgCarrier.refused DBServConf.MESSAGE_LOGIN_ERROR_MSG
  else do
    let loginCharacterReqMsg ←
      decoded (LoginCharacterRequestMessage.deserialize loginMsgCarrier.message)
    let carrier := loginMsgCarrier.answering DBServConf.BROKER_DB_4_LOGIN_KEY
    let res ← answerLoginCharacter d loginCharacterReqMsg
    return { carrier with
      message := packed DBServConf.MESSAGE_LOGIN_LOGIN_RESPONSE_MSG res.members }

-- ---------------------------------------------------------------------------
-- Game
-- ---------------------------------------------------------------------------

/-- The message of a scene is read and dropped; the carrier stays as it came. -/
def getGameResponseMsg (gameMsgCarrier : Carrier) : Task σ Carrier :=
  if gameMsgCarrier.type ≠ DBServConf.MESSAGE_GAME_MSG then
    return gameMsgCarrier.refused DBServConf.MESSAGE_GAME_ERROR_MSG
  else do
    let _ ← decoded (DSMessage.deserialize gameMsgCarrier.message)
    return gameMsgCarrier

/-- The answer to `GAME_LOAD_CHARACTER_CODE`: from the cache, else from the database. -/
def loadCharacter (d : Drivers σ) (account characterName : Bytes) :
    Task σ DSLoadOrUploadCharacterMessage := do
  let (result, characterData) ← d.getCharacterData (generateCharacterKey account characterName)
  if result > 0 then
    -- nobody assigns the scene of a cached character
    return {
      code := code.game.GAME_LOAD_CHARACTER_SUCCESS
      sceneId := d.indeterminate
      account := account
      characterName := characterName
      characterData := characterData }
  else
    let characterInfoOptional ← d.getOneCharacterInfoFill2Message account characterName
    match characterInfoOptional with
    | some info =>
      return {
        code := code.game.GAME_LOAD_CHARACTER_SUCCESS
        sceneId := info.sceneId
        account := account
        characterName := characterName
        characterData := info.serialize }
    | none =>
      return {
        code := code.game.GAME_LOAD_CHARACTER_ERROR
        sceneId := d.indeterminate
        account := []
        characterName := []
        characterData := [] }

/-- `GAME_UPLOAD_CHARACTER_CODE`, and `GAME_LAST_UPLOAD_CHARACTER_CODE` if `last`. -/
def uploadCharacter (d : Drivers σ) (last : Bool) (account characterName characterData : Bytes) :
    Task σ Unit := do
  let characterKey := generateCharacterKey account characterName
  -- the cache first: it keeps what the database may refuse
  let _ ← d.addCharacter characterKey [(literal "character_data", characterData)]
  if last then
    let _ ← d.setTTL characterKey 300
  let characterInfoMsg ← decoded (CharacterInfo.deserialize characterData)
  let _ ← d.updateCharacter characterInfoMsg last
  return ()

/-- The handler of `GAME_CHARACTER_MSG`. An upload is not answered. -/
def getGameCharacterResponseMsg (d : Drivers σ) (gameMsgCarrier : Carrier) : Task σ Carrier :=
  if gameMsgCarrier.type ≠ DBServConf.MESSAGE_GAME_CHARACTER_MSG then
    return gameMsgCarrier.refused DBServConf.MESSAGE_GAME_ERROR_MSG
  else do
    let dsMsg ← decoded (DSLoadOrUploadCharacterMessage.deserialize gameMsgCarrier.message)
    let quiet : Carrier :=
      { gameMsgCarrier with nextService := [], service := DBServConf.BROKER_DB_4_GAME_KEY }
    if dsMsg.code = code.game.GAME_LOAD_CHARACTER_CODE then
      let dsResMsg ← loadCharacter d dsMsg.account dsMsg.characterName
      return { gameMsgCarrier.answering DBServConf.BROKER_DB_4_GAME_KEY with
        message := packed DBServConf.MESSAGE_GAME_CHARACTER_MSG dsResMsg.members }
    else if dsMsg.code = code.game.GAME_UPLOAD_CHARACTER_CODE then
      uploadCharacter d false dsMsg.account dsMsg.characterName dsMsg.characterData
      return quiet
    else if dsMsg.code = code.game.GAME_LAST_UPLOAD_CHARACTER_CODE then
      uploadCharacter d true dsMsg.account dsMsg.characterName dsMsg.characterData
      return quiet
    else
      -- another code leaves the carrier as it came
      return gameMsgCarrier

end

end WarringServer.DBServer
