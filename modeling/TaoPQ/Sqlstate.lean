import Mathlib.Data.List.Nodup

/-!
# SQLSTATE

The exceptions of `exception.hpp` with their base classes, and `internal::throw_sqlstate` of `exception.cpp`, which
chooses one of them by the SQLSTATE of an error.  What a program catches by a class of `exception.hpp` are the errors
with the code, or with the first two characters, that is written beside the class there (`caught_by_class`).
-/

namespace TaoPQ

/-- `sql_error`, and the classes derived from it. -/
inductive SqlError where
  | sqlError | success | warning | nullValueEliminatedInSetFunction | stringDataRightTruncationWarning
  | privilegeNotRevoked | privilegeNotGranted | implicitZeroBitPadding | dynamicResultSetsReturned
  | deprecatedFeature | noData | noAdditionalDynamicResultSetsReturned | sqlStatementNotYetComplete
  | connectionError | sqlclientUnableToEstablishSqlconnection | connectionDoesNotExist
  | sqlserverRejectedEstablishmentOfSqlconnection | connectionFailure | transactionResolutionUnknown
  | protocolViolation | triggeredActionException | featureNotSupported | invalidTransactionInitiation
  | locatorException | invalidLocatorSpecification | invalidGrantor | invalidGrantOperation
  | invalidRoleSpecification | diagnosticsException | stackedDiagnosticsAccessedWithoutActiveHandler | caseNotFound
  | cardinalityViolation | dataException | arraySubscriptError | characterNotInRepertoire | datetimeFieldOverflow
  | divisionByZero | errorInAssignment | escapeCharacterConflict | indicatorOverflow | intervalFieldOverflow
  | invalidArgumentForLogarithm | invalidArgumentForNtileFunction | invalidArgumentForNthValueFunction
  | invalidArgumentForPowerFunction | invalidArgumentForWidthBucketFunction | invalidCharacterValueForCast
  | invalidDatetimeFormat | invalidEscapeCharacter | invalidEscapeOctet | invalidEscapeSequence
  | nonstandardUseOfEscapeCharacter | invalidIndicatorParameterValue | invalidParameterValue
  | invalidPrecedingOrFollowingSize | invalidRegularExpression | invalidRowCountInLimitClause
  | invalidRowCountInResultOffsetClause | invalidTablesampleArgument | invalidTablesampleRepeat
  | invalidTimeZoneDisplacementValue | invalidUseOfEscapeCharacter | mostSpecificTypeMismatch | nullValueNotAllowed
  | nullValueNoIndicatorParameter | numericValueOutOfRange | sequenceGeneratorLimitExceeded
  | stringDataLengthMismatch | stringDataRightTruncationDataException | substringError | trimError
  | unterminatedCString | zeroLengthCharacterString | floatingPointException | invalidTextRepresentation
  | invalidBinaryRepresentation | badCopyFileFormat | untranslatableCharacter | notAnXmlDocument
  | invalidXmlDocument | invalidXmlContent | invalidXmlComment | invalidXmlProcessingInstruction
  | duplicateJsonObjectKeyValue | invalidArgumentForSqlJsonDatetimeFunction | invalidJsonText
  | invalidSqlJsonSubscript | moreThanOneSqlJsonItem | noSqlJsonItem | nonNumericSqlJsonItem
  | nonUniqueKeysInAJsonObject | singletonSqlJsonItemRequired | sqlJsonArrayNotFound | sqlJsonMemberNotFound
  | sqlJsonNumberNotFound | sqlJsonObjectNotFound | tooManyJsonArrayElements | tooManyJsonObjectMembers
  | sqlJsonScalarRequired | integrityConstraintViolation | restrictViolation | notNullViolation
  | foreignKeyViolation | uniqueViolation | checkViolation | exclusionViolation | invalidCursorState
  | invalidTransactionState | activeSqlTransaction | branchTransactionAlreadyActive
  | heldCursorRequiresSameIsolationLevel | inappropriateAccessModeForBranchTransaction
  | inappropriateIsolationLevelForBranchTransaction | noActiveSqlTransactionForBranchTransaction
  | readOnlySqlTransaction | schemaAndDataStatementMixingNotSupported | noActiveSqlTransaction
  | inFailedSqlTransaction | idleInTransactionSessionTimeout | invalidSqlStatementName
  | triggeredDataChangeViolation | invalidAuthorizationSpecification | invalidPassword
  | dependentPrivilegeDescriptorsStillExist | dependentObjectsStillExist | invalidTransactionTermination
  | sqlRoutineException | modifyingSqlDataNotPermittedSqlRoutineException
  | prohibitedSqlStatementAttemptedSqlRoutineException | readingSqlDataNotPermittedSqlRoutineException
  | functionExecutedNoReturnStatement | invalidCursorName | externalRoutineException | containingSqlNotPermitted
  | modifyingSqlDataNotPermittedExternalRoutineException | prohibitedSqlStatementAttemptedExternalRoutineException
  | readingSqlDataNotPermittedExternalRoutineException | externalRoutineInvocationException
  | invalidSqlstateReturned | externalNullValueNotAllowed | triggerProtocolViolated | srfProtocolViolated
  | eventTriggerProtocolViolated | savepointException | invalidSavepointSpecification | invalidCatalogName
  | invalidSchemaName | transactionRollback | serializationFailure | transactionIntegrityConstraintViolation
  | statementCompletionUnknown | deadlockDetected | syntaxErrorOrAccessRuleViolation | insufficientPrivilege
  | syntaxError | invalidName | invalidColumnDefinition | nameTooLong | duplicateColumn | ambiguousColumn
  | undefinedColumn | undefinedObject | duplicateObject | duplicateAlias | duplicateFunction | ambiguousFunction
  | groupingError | datatypeMismatch | wrongObjectType | invalidForeignKey | cannotCoerce | undefinedFunction
  | generatedAlways | reservedName | undefinedTable | undefinedParameter | duplicateCursor | duplicateDatabase
  | duplicatePreparedStatement | duplicateSchema | duplicateTable | ambiguousParameter | ambiguousAlias
  | invalidColumnReference | invalidCursorDefinition | invalidDatabaseDefinition | invalidFunctionDefinition
  | invalidPreparedStatementDefinition | invalidSchemaDefinition | invalidTableDefinition | invalidObjectDefinition
  | indeterminateDatatype | invalidRecursion | windowingError | collationMismatch | indeterminateCollation
  | withCheckOptionViolation | insufficientResources | diskFull | outOfMemory | tooManyConnections
  | configurationLimitExceeded | programLimitExceeded | statementTooComplex | tooManyColumns | tooManyArguments
  | objectNotInPrerequisiteState | objectInUse | cantChangeRuntimeParam | lockNotAvailable
  | unsafeNewEnumValueUsage | operatorIntervention | queryCanceled | adminShutdown | crashShutdown
  | cannotConnectNow | databaseDropped | systemError | ioError | undefinedFile | duplicateFile | snapshotTooOld
  | configFileError | lockFileExists | fdwError | fdwOutOfMemory | fdwDynamicParameterValueNeeded
  | fdwInvalidDataType | fdwColumnNameNotFound | fdwInvalidDataTypeDescriptors | fdwInvalidColumnName
  | fdwInvalidColumnNumber | fdwInvalidUseOfNullPointer | fdwInvalidStringFormat | fdwInvalidHandle
  | fdwInvalidOptionIndex | fdwInvalidOptionName | fdwOptionNameNotFound | fdwReplyHandle
  | fdwUnableToCreateExecution | fdwUnableToCreateReply | fdwUnableToEstablishConnection | fdwNoSchemas
  | fdwSchemaNotFound | fdwTableNotFound | fdwFunctionSequenceError | fdwTooManyHandles
  | fdwInconsistentDescriptorInformation | fdwInvalidAttributeValue | fdwInvalidStringLengthOrBufferLength
  | fdwInvalidDescriptorFieldIdentifier | plpgsqlError | raiseException | noDataFound | tooManyRows | assertFailure
  | internalError | dataCorrupted | indexCorrupted
  deriving DecidableEq

namespace SqlError

/-- The base class, within the classes derived from `sql_error`. -/
def base : SqlError → Option SqlError
  | sqlError => none
  | success | warning | noData | sqlStatementNotYetComplete | connectionError | triggeredActionException
  | featureNotSupported | invalidTransactionInitiation | locatorException | invalidGrantor
  | invalidRoleSpecification | diagnosticsException | caseNotFound | cardinalityViolation | dataException
  | integrityConstraintViolation | invalidCursorState | invalidTransactionState | invalidSqlStatementName
  | triggeredDataChangeViolation | invalidAuthorizationSpecification | dependentPrivilegeDescriptorsStillExist
  | invalidTransactionTermination | sqlRoutineException | invalidCursorName | externalRoutineException
  | externalRoutineInvocationException | savepointException | invalidCatalogName | invalidSchemaName
  | transactionRollback | syntaxErrorOrAccessRuleViolation | withCheckOptionViolation | insufficientResources
  | programLimitExceeded | objectNotInPrerequisiteState | operatorIntervention | systemError | snapshotTooOld
  | configFileError | fdwError | plpgsqlError | internalError => some sqlError
  | nullValueEliminatedInSetFunction | stringDataRightTruncationWarning | privilegeNotRevoked | privilegeNotGranted
  | implicitZeroBitPadding | dynamicResultSetsReturned | deprecatedFeature => some warning
  | noAdditionalDynamicResultSetsReturned => some noData
  | sqlclientUnableToEstablishSqlconnection | connectionDoesNotExist
  | sqlserverRejectedEstablishmentOfSqlconnection | connectionFailure | transactionResolutionUnknown
  | protocolViolation => some connectionError
  | invalidLocatorSpecification => some locatorException
  | invalidGrantOperation => some invalidGrantor
  | stackedDiagnosticsAccessedWithoutActiveHandler => some diagnosticsException
  | arraySubscriptError | characterNotInRepertoire | datetimeFieldOverflow | divisionByZero | errorInAssignment
  | escapeCharacterConflict | indicatorOverflow | intervalFieldOverflow | invalidArgumentForLogarithm
  | invalidArgumentForNtileFunction | invalidArgumentForNthValueFunction | invalidArgumentForPowerFunction
  | invalidArgumentForWidthBucketFunction | invalidCharacterValueForCast | invalidDatetimeFormat
  | invalidEscapeCharacter | invalidEscapeOctet | invalidEscapeSequence | nonstandardUseOfEscapeCharacter
  | invalidIndicatorParameterValue | invalidParameterValue | invalidPrecedingOrFollowingSize
  | invalidRegularExpression | invalidRowCountInLimitClause | invalidRowCountInResultOffsetClause
  | invalidTablesampleArgument | invalidTablesampleRepeat | invalidTimeZoneDisplacementValue
  | invalidUseOfEscapeCharacter | mostSpecificTypeMismatch | nullValueNotAllowed | nullValueNoIndicatorParameter
  | numericValueOutOfRange | sequenceGeneratorLimitExceeded | stringDataLengthMismatch
  | stringDataRightTruncationDataException | substringError | trimError | unterminatedCString
  | zeroLengthCharacterString | floatingPointException | invalidTextRepresentation | invalidBinaryRepresentation
  | badCopyFileFormat | untranslatableCharacter | notAnXmlDocument | invalidXmlDocument | invalidXmlContent
  | invalidXmlComment | invalidXmlProcessingInstruction | duplicateJsonObjectKeyValue
  | invalidArgumentForSqlJsonDatetimeFunction | invalidJsonText | invalidSqlJsonSubscript | moreThanOneSqlJsonItem
  | noSqlJsonItem | nonNumericSqlJsonItem | nonUniqueKeysInAJsonObject | singletonSqlJsonItemRequired
  | sqlJsonArrayNotFound | sqlJsonMemberNotFound | sqlJsonNumberNotFound | sqlJsonObjectNotFound
  | tooManyJsonArrayElements | tooManyJsonObjectMembers | sqlJsonScalarRequired => some dataException
  | restrictViolation | notNullViolation | foreignKeyViolation | uniqueViolation | checkViolation
  | exclusionViolation => some integrityConstraintViolation
  | activeSqlTransaction | branchTransactionAlreadyActive | heldCursorRequiresSameIsolationLevel
  | inappropriateAccessModeForBranchTransaction | inappropriateIsolationLevelForBranchTransaction
  | noActiveSqlTransactionForBranchTransaction | readOnlySqlTransaction | schemaAndDataStatementMixingNotSupported
  | noActiveSqlTransaction | inFailedSqlTransaction | idleInTransactionSessionTimeout => some invalidTransactionState
  | invalidPassword => some invalidAuthorizationSpecification
  | dependentObjectsStillExist => some dependentPrivilegeDescriptorsStillExist
  | modifyingSqlDataNotPermittedSqlRoutineException | prohibitedSqlStatementAttemptedSqlRoutineException
  | readingSqlDataNotPermittedSqlRoutineException | functionExecutedNoReturnStatement => some sqlRoutineException
  | containingSqlNotPermitted | modifyingSqlDataNotPermittedExternalRoutineException
  | prohibitedSqlStatementAttemptedExternalRoutineException
  | readingSqlDataNotPermittedExternalRoutineException => some externalRoutineException
  | invalidSqlstateReturned | externalNullValueNotAllowed | triggerProtocolViolated | srfProtocolViolated
  | eventTriggerProtocolViolated => some externalRoutineInvocationException
  | invalidSavepointSpecification => some savepointException
  | serializationFailure | transactionIntegrityConstraintViolation | statementCompletionUnknown
  | deadlockDetected => some transactionRollback
  | insufficientPrivilege | syntaxError | invalidName | invalidColumnDefinition | nameTooLong | duplicateColumn
  | ambiguousColumn | undefinedColumn | undefinedObject | duplicateObject | duplicateAlias | duplicateFunction
  | ambiguousFunction | groupingError | datatypeMismatch | wrongObjectType | invalidForeignKey | cannotCoerce
  | undefinedFunction | generatedAlways | reservedName | undefinedTable | undefinedParameter | duplicateCursor
  | duplicateDatabase | duplicatePreparedStatement | duplicateSchema | duplicateTable | ambiguousParameter
  | ambiguousAlias | invalidColumnReference | invalidCursorDefinition | invalidDatabaseDefinition
  | invalidFunctionDefinition | invalidPreparedStatementDefinition | invalidSchemaDefinition
  | invalidTableDefinition | invalidObjectDefinition | indeterminateDatatype | invalidRecursion | windowingError
  | collationMismatch | indeterminateCollation => some syntaxErrorOrAccessRuleViolation
  | diskFull | outOfMemory | tooManyConnections | configurationLimitExceeded => some insufficientResources
  | statementTooComplex | tooManyColumns | tooManyArguments => some programLimitExceeded
  | objectInUse | cantChangeRuntimeParam | lockNotAvailable
  | unsafeNewEnumValueUsage => some objectNotInPrerequisiteState
  | queryCanceled | adminShutdown | crashShutdown | cannotConnectNow | databaseDropped => some operatorIntervention
  | ioError | undefinedFile | duplicateFile => some systemError
  | lockFileExists => some configFileError
  | fdwOutOfMemory | fdwDynamicParameterValueNeeded | fdwInvalidDataType | fdwColumnNameNotFound
  | fdwInvalidDataTypeDescriptors | fdwInvalidColumnName | fdwInvalidColumnNumber | fdwInvalidUseOfNullPointer
  | fdwInvalidStringFormat | fdwInvalidHandle | fdwInvalidOptionIndex | fdwInvalidOptionName
  | fdwOptionNameNotFound | fdwReplyHandle | fdwUnableToCreateExecution | fdwUnableToCreateReply
  | fdwUnableToEstablishConnection | fdwNoSchemas | fdwSchemaNotFound | fdwTableNotFound | fdwFunctionSequenceError
  | fdwTooManyHandles | fdwInconsistentDescriptorInformation | fdwInvalidAttributeValue
  | fdwInvalidStringLengthOrBufferLength | fdwInvalidDescriptorFieldIdentifier => some fdwError
  | raiseException | noDataFound | tooManyRows | assertFailure => some plpgsqlError
  | dataCorrupted | indexCorrupted => some internalError

/-- The code that is written beside the class, and the first two characters of the codes for a whole class of errors
(`22xxx`). -/
def code : SqlError → String
  | sqlError => ""
  | success => "00"
  | warning => "01"
  | nullValueEliminatedInSetFunction => "01003"
  | stringDataRightTruncationWarning => "01004"
  | privilegeNotRevoked => "01006"
  | privilegeNotGranted => "01007"
  | implicitZeroBitPadding => "01008"
  | dynamicResultSetsReturned => "0100C"
  | deprecatedFeature => "01P01"
  | noData => "02"
  | noAdditionalDynamicResultSetsReturned => "02001"
  | sqlStatementNotYetComplete => "03"
  | connectionError => "08"
  | sqlclientUnableToEstablishSqlconnection => "08001"
  | connectionDoesNotExist => "08003"
  | sqlserverRejectedEstablishmentOfSqlconnection => "08004"
  | connectionFailure => "08006"
  | transactionResolutionUnknown => "08007"
  | protocolViolation => "08P01"
  | triggeredActionException => "09"
  | featureNotSupported => "0A"
  | invalidTransactionInitiation => "0B"
  | locatorException => "0F"
  | invalidLocatorSpecification => "0F001"
  | invalidGrantor => "0L"
  | invalidGrantOperation => "0LP01"
  | invalidRoleSpecification => "0P"
  | diagnosticsException => "0Z"
  | stackedDiagnosticsAccessedWithoutActiveHandler => "0Z002"
  | caseNotFound => "20"
  | cardinalityViolation => "21"
  | dataException => "22"
  | arraySubscriptError => "2202E"
  | characterNotInRepertoire => "22021"
  | datetimeFieldOverflow => "22008"
  | divisionByZero => "22012"
  | errorInAssignment => "22005"
  | escapeCharacterConflict => "2200B"
  | indicatorOverflow => "22022"
  | intervalFieldOverflow => "22015"
  | invalidArgumentForLogarithm => "2201E"
  | invalidArgumentForNtileFunction => "22014"
  | invalidArgumentForNthValueFunction => "22016"
  | invalidArgumentForPowerFunction => "2201F"
  | invalidArgumentForWidthBucketFunction => "2201G"
  | invalidCharacterValueForCast => "22018"
  | invalidDatetimeFormat => "22007"
  | invalidEscapeCharacter => "22019"
  | invalidEscapeOctet => "2200D"
  | invalidEscapeSequence => "22025"
  | nonstandardUseOfEscapeCharacter => "22P06"
  | invalidIndicatorParameterValue => "22010"
  | invalidParameterValue => "22023"
  | invalidPrecedingOrFollowingSize => "22013"
  | invalidRegularExpression => "2201B"
  | invalidRowCountInLimitClause => "2201W"
  | invalidRowCountInResultOffsetClause => "2201X"
  | invalidTablesampleArgument => "2202H"
  | invalidTablesampleRepeat => "2202G"
  | invalidTimeZoneDisplacementValue => "22009"
  | invalidUseOfEscapeCharacter => "2200C"
  | mostSpecificTypeMismatch => "2200G"
  | nullValueNotAllowed => "22004"
  | nullValueNoIndicatorParameter => "22002"
  | numericValueOutOfRange => "22003"
  | sequenceGeneratorLimitExceeded => "2200H"
  | stringDataLengthMismatch => "22026"
  | stringDataRightTruncationDataException => "22001"
  | substringError => "22011"
  | trimError => "22027"
  | unterminatedCString => "22024"
  | zeroLengthCharacterString => "2200F"
  | floatingPointException => "22P01"
  | invalidTextRepresentation => "22P02"
  | invalidBinaryRepresentation => "22P03"
  | badCopyFileFormat => "22P04"
  | untranslatableCharacter => "22P05"
  | notAnXmlDocument => "2200L"
  | invalidXmlDocument => "2200M"
  | invalidXmlContent => "2200N"
  | invalidXmlComment => "2200S"
  | invalidXmlProcessingInstruction => "2200T"
  | duplicateJsonObjectKeyValue => "22030"
  | invalidArgumentForSqlJsonDatetimeFunction => "22031"
  | invalidJsonText => "22032"
  | invalidSqlJsonSubscript => "22033"
  | moreThanOneSqlJsonItem => "22034"
  | noSqlJsonItem => "22035"
  | nonNumericSqlJsonItem => "22036"
  | nonUniqueKeysInAJsonObject => "22037"
  | singletonSqlJsonItemRequired => "22038"
  | sqlJsonArrayNotFound => "22039"
  | sqlJsonMemberNotFound => "2203A"
  | sqlJsonNumberNotFound => "2203B"
  | sqlJsonObjectNotFound => "2203C"
  | tooManyJsonArrayElements => "2203D"
  | tooManyJsonObjectMembers => "2203E"
  | sqlJsonScalarRequired => "2203F"
  | integrityConstraintViolation => "23"
  | restrictViolation => "23001"
  | notNullViolation => "23502"
  | foreignKeyViolation => "23503"
  | uniqueViolation => "23505"
  | checkViolation => "23514"
  | exclusionViolation => "23P01"
  | invalidCursorState => "24"
  | invalidTransactionState => "25"
  | activeSqlTransaction => "25001"
  | branchTransactionAlreadyActive => "25002"
  | heldCursorRequiresSameIsolationLevel => "25008"
  | inappropriateAccessModeForBranchTransaction => "25003"
  | inappropriateIsolationLevelForBranchTransaction => "25004"
  | noActiveSqlTransactionForBranchTransaction => "25005"
  | readOnlySqlTransaction => "25006"
  | schemaAndDataStatementMixingNotSupported => "25007"
  | noActiveSqlTransaction => "25P01"
  | inFailedSqlTransaction => "25P02"
  | idleInTransactionSessionTimeout => "25P03"
  | invalidSqlStatementName => "26"
  | triggeredDataChangeViolation => "27"
  | invalidAuthorizationSpecification => "28"
  | invalidPassword => "28P01"
  | dependentPrivilegeDescriptorsStillExist => "2B"
  | dependentObjectsStillExist => "2BP01"
  | invalidTransactionTermination => "2D"
  | sqlRoutineException => "2F"
  | modifyingSqlDataNotPermittedSqlRoutineException => "2F002"
  | prohibitedSqlStatementAttemptedSqlRoutineException => "2F003"
  | readingSqlDataNotPermittedSqlRoutineException => "2F004"
  | functionExecutedNoReturnStatement => "2F005"
  | invalidCursorName => "34"
  | externalRoutineException => "38"
  | containingSqlNotPermitted => "38001"
  | modifyingSqlDataNotPermittedExternalRoutineException => "38002"
  | prohibitedSqlStatementAttemptedExternalRoutineException => "38003"
  | readingSqlDataNotPermittedExternalRoutineException => "38004"
  | externalRoutineInvocationException => "39"
  | invalidSqlstateReturned => "39001"
  | externalNullValueNotAllowed => "39004"
  | triggerProtocolViolated => "39P01"
  | srfProtocolViolated => "39P02"
  | eventTriggerProtocolViolated => "39P03"
  | savepointException => "3B"
  | invalidSavepointSpecification => "3B001"
  | invalidCatalogName => "3D"
  | invalidSchemaName => "3F"
  | transactionRollback => "40"
  | serializationFailure => "40001"
  | transactionIntegrityConstraintViolation => "40002"
  | statementCompletionUnknown => "40003"
  | deadlockDetected => "40P01"
  | syntaxErrorOrAccessRuleViolation => "42"
  | insufficientPrivilege => "42501"
  | syntaxError => "42601"
  | invalidName => "42602"
  | invalidColumnDefinition => "42611"
  | nameTooLong => "42622"
  | duplicateColumn => "42701"
  | ambiguousColumn => "42702"
  | undefinedColumn => "42703"
  | undefinedObject => "42704"
  | duplicateObject => "42710"
  | duplicateAlias => "42712"
  | duplicateFunction => "42723"
  | ambiguousFunction => "42725"
  | groupingError => "42803"
  | datatypeMismatch => "42804"
  | wrongObjectType => "42809"
  | invalidForeignKey => "42830"
  | cannotCoerce => "42846"
  | undefinedFunction => "42883"
  | generatedAlways => "428C9"
  | reservedName => "42939"
  | undefinedTable => "42P01"
  | undefinedParameter => "42P02"
  | duplicateCursor => "42P03"
  | duplicateDatabase => "42P04"
  | duplicatePreparedStatement => "42P05"
  | duplicateSchema => "42P06"
  | duplicateTable => "42P07"
  | ambiguousParameter => "42P08"
  | ambiguousAlias => "42P09"
  | invalidColumnReference => "42P10"
  | invalidCursorDefinition => "42P11"
  | invalidDatabaseDefinition => "42P12"
  | invalidFunctionDefinition => "42P13"
  | invalidPreparedStatementDefinition => "42P14"
  | invalidSchemaDefinition => "42P15"
  | invalidTableDefinition => "42P16"
  | invalidObjectDefinition => "42P17"
  | indeterminateDatatype => "42P18"
  | invalidRecursion => "42P19"
  | windowingError => "42P20"
  | collationMismatch => "42P21"
  | indeterminateCollation => "42P22"
  | withCheckOptionViolation => "44"
  | insufficientResources => "53"
  | diskFull => "53100"
  | outOfMemory => "53200"
  | tooManyConnections => "53300"
  | configurationLimitExceeded => "53400"
  | programLimitExceeded => "54"
  | statementTooComplex => "54001"
  | tooManyColumns => "54011"
  | tooManyArguments => "54023"
  | objectNotInPrerequisiteState => "55"
  | objectInUse => "55006"
  | cantChangeRuntimeParam => "55P02"
  | lockNotAvailable => "55P03"
  | unsafeNewEnumValueUsage => "55P04"
  | operatorIntervention => "57"
  | queryCanceled => "57014"
  | adminShutdown => "57P01"
  | crashShutdown => "57P02"
  | cannotConnectNow => "57P03"
  | databaseDropped => "57P04"
  | systemError => "58"
  | ioError => "58030"
  | undefinedFile => "58P01"
  | duplicateFile => "58P02"
  | snapshotTooOld => "72"
  | configFileError => "F0"
  | lockFileExists => "F0001"
  | fdwError => "HV"
  | fdwOutOfMemory => "HV001"
  | fdwDynamicParameterValueNeeded => "HV002"
  | fdwInvalidDataType => "HV004"
  | fdwColumnNameNotFound => "HV005"
  | fdwInvalidDataTypeDescriptors => "HV006"
  | fdwInvalidColumnName => "HV007"
  | fdwInvalidColumnNumber => "HV008"
  | fdwInvalidUseOfNullPointer => "HV009"
  | fdwInvalidStringFormat => "HV00A"
  | fdwInvalidHandle => "HV00B"
  | fdwInvalidOptionIndex => "HV00C"
  | fdwInvalidOptionName => "HV00D"
  | fdwOptionNameNotFound => "HV00J"
  | fdwReplyHandle => "HV00K"
  | fdwUnableToCreateExecution => "HV00L"
  | fdwUnableToCreateReply => "HV00M"
  | fdwUnableToEstablishConnection => "HV00N"
  | fdwNoSchemas => "HV00P"
  | fdwSchemaNotFound => "HV00Q"
  | fdwTableNotFound => "HV00R"
  | fdwFunctionSequenceError => "HV010"
  | fdwTooManyHandles => "HV014"
  | fdwInconsistentDescriptorInformation => "HV021"
  | fdwInvalidAttributeValue => "HV024"
  | fdwInvalidStringLengthOrBufferLength => "HV090"
  | fdwInvalidDescriptorFieldIdentifier => "HV091"
  | plpgsqlError => "P0"
  | raiseException => "P0001"
  | noDataFound => "P0002"
  | tooManyRows => "P0003"
  | assertFailure => "P0004"
  | internalError => "XX"
  | dataCorrupted => "XX001"
  | indexCorrupted => "XX002"

end SqlError

/-- A class is the other one, or derived from it: `catch( const c& )` catches an `e`. -/
inductive IsA : SqlError → SqlError → Prop where
  | refl (e : SqlError) : IsA e e
  | base {e b c : SqlError} : e.base = some b → IsA b c → IsA e c

namespace Sqlstate

open SqlError

/-- One `case` for the second character: the codes that are compared with, in order, and the exception for all
others. -/
structure Case where
  label : Char
  codes : List (String × SqlError)
  other : SqlError

/-- The two levels of `switch` statements in `throw_sqlstate`, without the `default` branches, which throw
`sql_error`. -/
def switch : List (Char × List Case) := [
  ('0', [
    ⟨'0', [], success⟩,
    ⟨'1', [
      ("01003", nullValueEliminatedInSetFunction), ("01004", stringDataRightTruncationWarning),
      ("01006", privilegeNotRevoked), ("01007", privilegeNotGranted), ("01008", implicitZeroBitPadding),
      ("0100C", dynamicResultSetsReturned), ("01P01", deprecatedFeature)],
      warning⟩,
    ⟨'2', [
      ("02001", noAdditionalDynamicResultSetsReturned)],
      noData⟩,
    ⟨'3', [], sqlStatementNotYetComplete⟩,
    ⟨'8', [
      ("08001", sqlclientUnableToEstablishSqlconnection), ("08003", connectionDoesNotExist),
      ("08004", sqlserverRejectedEstablishmentOfSqlconnection), ("08006", connectionFailure),
      ("08007", transactionResolutionUnknown), ("08P01", protocolViolation)],
      connectionError⟩,
    ⟨'9', [], triggeredActionException⟩,
    ⟨'A', [], featureNotSupported⟩,
    ⟨'B', [], invalidTransactionInitiation⟩,
    ⟨'F', [
      ("0F001", invalidLocatorSpecification)],
      locatorException⟩,
    ⟨'L', [
      ("0LP01", invalidGrantOperation)],
      invalidGrantor⟩,
    ⟨'P', [], invalidRoleSpecification⟩,
    ⟨'Z', [
      ("0Z002", stackedDiagnosticsAccessedWithoutActiveHandler)],
      diagnosticsException⟩]),
  ('2', [
    ⟨'0', [], caseNotFound⟩,
    ⟨'1', [], cardinalityViolation⟩,
    ⟨'2', [
      ("2202E", arraySubscriptError), ("22021", characterNotInRepertoire), ("22008", datetimeFieldOverflow),
      ("22012", divisionByZero), ("22005", errorInAssignment), ("2200B", escapeCharacterConflict),
      ("22022", indicatorOverflow), ("22015", intervalFieldOverflow), ("2201E", invalidArgumentForLogarithm),
      ("22014", invalidArgumentForNtileFunction), ("22016", invalidArgumentForNthValueFunction),
      ("2201F", invalidArgumentForPowerFunction), ("2201G", invalidArgumentForWidthBucketFunction),
      ("22018", invalidCharacterValueForCast), ("22007", invalidDatetimeFormat), ("22019", invalidEscapeCharacter),
      ("2200D", invalidEscapeOctet), ("22025", invalidEscapeSequence), ("22P06", nonstandardUseOfEscapeCharacter),
      ("22010", invalidIndicatorParameterValue), ("22023", invalidParameterValue),
      ("22013", invalidPrecedingOrFollowingSize), ("2201B", invalidRegularExpression),
      ("2201W", invalidRowCountInLimitClause), ("2201X", invalidRowCountInResultOffsetClause),
      ("2202H", invalidTablesampleArgument), ("2202G", invalidTablesampleRepeat),
      ("22009", invalidTimeZoneDisplacementValue), ("2200C", invalidUseOfEscapeCharacter),
      ("2200G", mostSpecificTypeMismatch), ("22004", nullValueNotAllowed),
      ("22002", nullValueNoIndicatorParameter), ("22003", numericValueOutOfRange),
      ("2200H", sequenceGeneratorLimitExceeded), ("22026", stringDataLengthMismatch),
      ("22001", stringDataRightTruncationDataException), ("22011", substringError), ("22027", trimError),
      ("22024", unterminatedCString), ("2200F", zeroLengthCharacterString), ("22P01", floatingPointException),
      ("22P02", invalidTextRepresentation), ("22P03", invalidBinaryRepresentation), ("22P04", badCopyFileFormat),
      ("22P05", untranslatableCharacter), ("2200L", notAnXmlDocument), ("2200M", invalidXmlDocument),
      ("2200N", invalidXmlContent), ("2200S", invalidXmlComment), ("2200T", invalidXmlProcessingInstruction),
      ("22030", duplicateJsonObjectKeyValue), ("22031", invalidArgumentForSqlJsonDatetimeFunction),
      ("22032", invalidJsonText), ("22033", invalidSqlJsonSubscript), ("22034", moreThanOneSqlJsonItem),
      ("22035", noSqlJsonItem), ("22036", nonNumericSqlJsonItem), ("22037", nonUniqueKeysInAJsonObject),
      ("22038", singletonSqlJsonItemRequired), ("22039", sqlJsonArrayNotFound), ("2203A", sqlJsonMemberNotFound),
      ("2203B", sqlJsonNumberNotFound), ("2203C", sqlJsonObjectNotFound), ("2203D", tooManyJsonArrayElements),
      ("2203E", tooManyJsonObjectMembers), ("2203F", sqlJsonScalarRequired)],
      dataException⟩,
    ⟨'3', [
      ("23001", restrictViolation), ("23502", notNullViolation), ("23503", foreignKeyViolation),
      ("23505", uniqueViolation), ("23514", checkViolation), ("23P01", exclusionViolation)],
      integrityConstraintViolation⟩,
    ⟨'4', [], invalidCursorState⟩,
    ⟨'5', [
      ("25001", activeSqlTransaction), ("25002", branchTransactionAlreadyActive),
      ("25008", heldCursorRequiresSameIsolationLevel), ("25003", inappropriateAccessModeForBranchTransaction),
      ("25004", inappropriateIsolationLevelForBranchTransaction),
      ("25005", noActiveSqlTransactionForBranchTransaction), ("25006", readOnlySqlTransaction),
      ("25007", schemaAndDataStatementMixingNotSupported), ("25P01", noActiveSqlTransaction),
      ("25P02", inFailedSqlTransaction), ("25P03", idleInTransactionSessionTimeout)],
      invalidTransactionState⟩,
    ⟨'6', [], invalidSqlStatementName⟩,
    ⟨'7', [], triggeredDataChangeViolation⟩,
    ⟨'8', [
      ("28P01", invalidPassword)],
      invalidAuthorizationSpecification⟩,
    ⟨'B', [
      ("2BP01", dependentObjectsStillExist)],
      dependentPrivilegeDescriptorsStillExist⟩,
    ⟨'D', [], invalidTransactionTermination⟩,
    ⟨'F', [
      ("2F002", modifyingSqlDataNotPermittedSqlRoutineException),
      ("2F003", prohibitedSqlStatementAttemptedSqlRoutineException),
      ("2F004", readingSqlDataNotPermittedSqlRoutineException), ("2F005", functionExecutedNoReturnStatement)],
      sqlRoutineException⟩]),
  ('3', [
    ⟨'4', [], invalidCursorName⟩,
    ⟨'8', [
      ("38001", containingSqlNotPermitted), ("38002", modifyingSqlDataNotPermittedExternalRoutineException),
      ("38003", prohibitedSqlStatementAttemptedExternalRoutineException),
      ("38004", readingSqlDataNotPermittedExternalRoutineException)],
      externalRoutineException⟩,
    ⟨'9', [
      ("39001", invalidSqlstateReturned), ("39004", externalNullValueNotAllowed),
      ("39P01", triggerProtocolViolated), ("39P02", srfProtocolViolated), ("39P03", eventTriggerProtocolViolated)],
      externalRoutineInvocationException⟩,
    ⟨'B', [
      ("3B001", invalidSavepointSpecification)],
      savepointException⟩,
    ⟨'D', [], invalidCatalogName⟩,
    ⟨'F', [], invalidSchemaName⟩]),
  ('4', [
    ⟨'0', [
      ("40001", serializationFailure), ("40002", transactionIntegrityConstraintViolation),
      ("40003", statementCompletionUnknown), ("40P01", deadlockDetected)],
      transactionRollback⟩,
    ⟨'2', [
      ("42501", insufficientPrivilege), ("42601", syntaxError), ("42602", invalidName),
      ("42611", invalidColumnDefinition), ("42622", nameTooLong), ("42701", duplicateColumn),
      ("42702", ambiguousColumn), ("42703", undefinedColumn), ("42704", undefinedObject),
      ("42710", duplicateObject), ("42712", duplicateAlias), ("42723", duplicateFunction),
      ("42725", ambiguousFunction), ("42803", groupingError), ("42804", datatypeMismatch),
      ("42809", wrongObjectType), ("42830", invalidForeignKey), ("42846", cannotCoerce),
      ("42883", undefinedFunction), ("428C9", generatedAlways), ("42939", reservedName), ("42P01", undefinedTable),
      ("42P02", undefinedParameter), ("42P03", duplicateCursor), ("42P04", duplicateDatabase),
      ("42P05", duplicatePreparedStatement), ("42P06", duplicateSchema), ("42P07", duplicateTable),
      ("42P08", ambiguousParameter), ("42P09", ambiguousAlias), ("42P10", invalidColumnReference),
      ("42P11", invalidCursorDefinition), ("42P12", invalidDatabaseDefinition),
      ("42P13", invalidFunctionDefinition), ("42P14", invalidPreparedStatementDefinition),
      ("42P15", invalidSchemaDefinition), ("42P16", invalidTableDefinition), ("42P17", invalidObjectDefinition),
      ("42P18", indeterminateDatatype), ("42P19", invalidRecursion), ("42P20", windowingError),
      ("42P21", collationMismatch), ("42P22", indeterminateCollation)],
      syntaxErrorOrAccessRuleViolation⟩,
    ⟨'4', [], withCheckOptionViolation⟩]),
  ('5', [
    ⟨'3', [
      ("53100", diskFull), ("53200", outOfMemory), ("53300", tooManyConnections),
      ("53400", configurationLimitExceeded)],
      insufficientResources⟩,
    ⟨'4', [
      ("54001", statementTooComplex), ("54011", tooManyColumns), ("54023", tooManyArguments)],
      programLimitExceeded⟩,
    ⟨'5', [
      ("55006", objectInUse), ("55P02", cantChangeRuntimeParam), ("55P03", lockNotAvailable),
      ("55P04", unsafeNewEnumValueUsage)],
      objectNotInPrerequisiteState⟩,
    ⟨'7', [
      ("57014", queryCanceled), ("57P01", adminShutdown), ("57P02", crashShutdown), ("57P03", cannotConnectNow),
      ("57P04", databaseDropped)],
      operatorIntervention⟩,
    ⟨'8', [
      ("58030", ioError), ("58P01", undefinedFile), ("58P02", duplicateFile)],
      systemError⟩]),
  ('7', [
    ⟨'2', [], snapshotTooOld⟩]),
  ('F', [
    ⟨'0', [
      ("F0001", lockFileExists)],
      configFileError⟩]),
  ('H', [
    ⟨'V', [
      ("HV001", fdwOutOfMemory), ("HV002", fdwDynamicParameterValueNeeded), ("HV004", fdwInvalidDataType),
      ("HV005", fdwColumnNameNotFound), ("HV006", fdwInvalidDataTypeDescriptors), ("HV007", fdwInvalidColumnName),
      ("HV008", fdwInvalidColumnNumber), ("HV009", fdwInvalidUseOfNullPointer), ("HV00A", fdwInvalidStringFormat),
      ("HV00B", fdwInvalidHandle), ("HV00C", fdwInvalidOptionIndex), ("HV00D", fdwInvalidOptionName),
      ("HV00J", fdwOptionNameNotFound), ("HV00K", fdwReplyHandle), ("HV00L", fdwUnableToCreateExecution),
      ("HV00M", fdwUnableToCreateReply), ("HV00N", fdwUnableToEstablishConnection), ("HV00P", fdwNoSchemas),
      ("HV00Q", fdwSchemaNotFound), ("HV00R", fdwTableNotFound), ("HV010", fdwFunctionSequenceError),
      ("HV014", fdwTooManyHandles), ("HV021", fdwInconsistentDescriptorInformation),
      ("HV024", fdwInvalidAttributeValue), ("HV090", fdwInvalidStringLengthOrBufferLength),
      ("HV091", fdwInvalidDescriptorFieldIdentifier)],
      fdwError⟩]),
  ('P', [
    ⟨'0', [
      ("P0001", raiseException), ("P0002", noDataFound), ("P0003", tooManyRows), ("P0004", assertFailure)],
      plpgsqlError⟩]),
  ('X', [
    ⟨'X', [
      ("XX001", dataCorrupted), ("XX002", indexCorrupted)],
      internalError⟩])]

/-- The comparisons with the codes. -/
def firstOf (s : List Char) (other : SqlError) : List (String × SqlError) → SqlError
  | [] => other
  | (code, e) :: codes => if s = code.toList then e else firstOf s other codes

/-- `internal::throw_sqlstate`: the exception that is thrown.  Characters behind the end of `sql_state` can not be
read. -/
def throwSqlstate : List Char → Option SqlError
  | [] => none
  | c :: s =>
    match switch.lookup c with
    | none => some sqlError
    | some cases =>
      match s with
      | [] => none
      | d :: _ =>
        match cases.find? (·.label == d) with
        | none => some sqlError
        | some k => some (firstOf (c :: s) k.other k.codes)

/-! ### What the source says -/

/-- A case throws what is written beside the classes, all of which are derived from the class for all other codes. -/
def Case.sound (c : Char) (k : Case) : Bool :=
  k.other.base == some sqlError && k.other.code.toList == [c, k.label] &&
    k.codes.all fun p => p.2.base == some k.other && p.2.code == p.1 && p.1.toList.take 2 == [c, k.label]

theorem switch_sound : ∀ p ∈ switch, ∀ k ∈ p.2, k.sound p.1 = true := by decide +kernel

/-- No label and no code occurs twice. -/
theorem switch_distinct : (switch.map Prod.fst).Nodup ∧ ∀ p ∈ switch, (p.2.map Case.label).Nodup ∧
    ∀ k ∈ p.2, (k.codes.map Prod.fst).Nodup := by decide +kernel

/-- The classes that are thrown somewhere, but for `sql_error`. -/
def thrownClasses : List SqlError := switch.flatMap fun p => p.2.flatMap fun k => k.other :: k.codes.map Prod.snd

/-- Every class is thrown somewhere. -/
theorem mem_thrownClasses (e : SqlError) : e = sqlError ∨ e ∈ thrownClasses := by
  have hlt : e.ctorIdx < 259 := by cases e <;> decide
  have hall : ∀ n < 259, ofNat n = sqlError ∨ ofNat n ∈ thrownClasses := by decide +kernel
  have h := hall e.ctorIdx hlt
  rwa [ofNat_ctorIdx] at h

/-! ### Which case is taken -/

/-- The case for the first two characters. -/
def found (c d : Char) : Option Case := (switch.lookup c).bind fun cases => cases.find? (·.label == d)

theorem throwSqlstate_eq (c d : Char) (s : List Char) :
    throwSqlstate (c :: d :: s) = some ((found c d).elim sqlError fun k => firstOf (c :: d :: s) k.other k.codes) := by
  unfold throwSqlstate found
  simp only
  cases hcases : switch.lookup c with
  | none => rfl
  | some cases =>
    simp only [Option.bind_some]
    cases cases.find? (·.label == d) <;> rfl

theorem lookup_iff {α β : Type} [BEq α] [LawfulBEq α] {l : List (α × β)} (hl : (l.map Prod.fst).Nodup) {a : α} {b : β} :
    l.lookup a = some b ↔ (a, b) ∈ l := by
  induction l with
  | nil => simp
  | cons p l ih =>
    obtain ⟨a', b'⟩ := p
    rw [List.map_cons, List.nodup_cons] at hl
    by_cases h : a = a'
    · subst h
      have hnot : (a, b) ∉ l := fun hmem => hl.1 (List.mem_map.2 ⟨(a, b), hmem, rfl⟩)
      rw [List.lookup_cons_self, List.mem_cons, Option.some.injEq, Prod.mk.injEq]
      exact ⟨fun hb => .inl ⟨rfl, hb.symm⟩, fun hb => hb.elim (fun h => h.2.symm) fun h => absurd h hnot⟩
    · rw [List.lookup_cons, beq_false_of_ne h, List.mem_cons, Prod.mk.injEq]
      exact (ih hl.2).trans ⟨.inr, fun hb => hb.resolve_left fun h' => h h'.1⟩

theorem find_iff {cases : List Case} (hcases : (cases.map Case.label).Nodup) {d : Char} {k : Case} :
    cases.find? (·.label == d) = some k ↔ k ∈ cases ∧ k.label = d := by
  induction cases with
  | nil => simp
  | cons k' cases ih =>
    rw [List.map_cons, List.nodup_cons] at hcases
    by_cases h : k'.label = d
    · have hnot : k ∈ cases → k.label ≠ d := fun hmem hd =>
        hcases.1 (h.trans hd.symm ▸ List.mem_map_of_mem (f := Case.label) hmem)
      rw [List.find?_cons_of_pos (by simpa using h), Option.some.injEq, List.mem_cons]
      constructor
      · rintro rfl
        exact ⟨.inl rfl, h⟩
      · rintro ⟨rfl | hmem, hd⟩
        · rfl
        · exact absurd hd (hnot hmem)
    · rw [List.find?_cons_of_neg (by simpa using h), ih hcases.2, List.mem_cons]
      constructor
      · rintro ⟨hmem, hd⟩
        exact ⟨.inr hmem, hd⟩
      · rintro ⟨rfl | hmem, hd⟩
        · exact absurd hd h
        · exact ⟨hmem, hd⟩

theorem found_iff {c d : Char} {k : Case} :
    found c d = some k ↔ ∃ cases, (c, cases) ∈ switch ∧ k ∈ cases ∧ k.label = d := by
  rw [found, Option.bind_eq_some_iff]
  constructor
  · rintro ⟨cases, hlookup, hfind⟩
    have hmem := (lookup_iff switch_distinct.1).1 hlookup
    exact ⟨cases, hmem, (find_iff (switch_distinct.2 _ hmem).1).1 hfind⟩
  · rintro ⟨cases, hmem, hk⟩
    exact ⟨cases, (lookup_iff switch_distinct.1).2 hmem, (find_iff (switch_distinct.2 _ hmem).1).2 hk⟩

/-! ### Cases and classes -/

section Found

variable {c d : Char} {k : Case} (h : found c d = some k)

include h

theorem other_of_found : k.other.base = some sqlError ∧ k.other.code.toList = [c, d] := by
  obtain ⟨cases, hmem, hk, rfl⟩ := found_iff.1 h
  have hsound := switch_sound _ hmem k hk
  simp only [Case.sound, Bool.and_eq_true, beq_iff_eq] at hsound
  exact hsound.1

theorem code_of_found {p : String × SqlError} (hp : p ∈ k.codes) :
    p.2.base = some k.other ∧ p.2.code = p.1 ∧ p.1.toList.take 2 = [c, d] := by
  obtain ⟨cases, hmem, hk, rfl⟩ := found_iff.1 h
  have hsound := switch_sound _ hmem k hk
  simp only [Case.sound, Bool.and_eq_true, List.all_eq_true, beq_iff_eq] at hsound
  exact ⟨(hsound.2 p hp).1.1, (hsound.2 p hp).1.2, (hsound.2 p hp).2⟩

end Found

/-- Where a class is thrown. -/
theorem placed (e : SqlError) : e = sqlError ∨
    ∃ c d k, found c d = some k ∧ (e = k.other ∨ ∃ p ∈ k.codes, e = p.2) := by
  rcases mem_thrownClasses e with rfl | hmem
  · exact .inl rfl
  · obtain ⟨⟨c, cases⟩, hcases, hmem⟩ := List.mem_flatMap.1 hmem
    obtain ⟨k, hk, hmem⟩ := List.mem_flatMap.1 hmem
    refine .inr ⟨c, k.label, k, found_iff.2 ⟨cases, hcases, hk, rfl⟩, ?_⟩
    rcases List.mem_cons.1 hmem with hother | hcode
    · exact .inl hother
    · obtain ⟨p, hp, rfl⟩ := List.mem_map.1 hcode
      exact .inr ⟨p, hp, rfl⟩

/-- A class of errors is the exception for all other codes of its case. -/
theorem placed_class {e : SqlError} (he : e.base = some sqlError) :
    ∃ c d k, found c d = some k ∧ e = k.other ∧ e.code.toList = [c, d] := by
  rcases placed e with rfl | ⟨c, d, k, hk, rfl | ⟨p, hp, rfl⟩⟩
  · cases he
  · exact ⟨c, d, k, hk, rfl, (other_of_found hk).2⟩
  · have hbase := (other_of_found hk).1
    rw [(code_of_found hk hp).1, Option.some.injEq] at he
    rw [he] at hbase
    cases hbase

/-- An error with a code of its own is thrown for that code. -/
theorem placed_code {e b : SqlError} (he : e.base = some b) (hb : b ≠ sqlError) :
    ∃ c d k p, found c d = some k ∧ p ∈ k.codes ∧ e = p.2 := by
  rcases placed e with rfl | ⟨c, d, k, hk, rfl | ⟨p, hp, rfl⟩⟩
  · cases he
  · rw [(other_of_found hk).1, Option.some.injEq] at he
    exact absurd he.symm hb
  · exact ⟨c, d, k, p, hk, hp, rfl⟩

/-! ### What is thrown -/

theorem firstOf_cases (s : List Char) (other : SqlError) (codes : List (String × SqlError)) :
    (∃ p ∈ codes, s = p.1.toList ∧ firstOf s other codes = p.2) ∨
      (∀ p ∈ codes, s ≠ p.1.toList) ∧ firstOf s other codes = other := by
  induction codes with
  | nil => exact .inr ⟨by simp, rfl⟩
  | cons p codes ih =>
    obtain ⟨code, e⟩ := p
    by_cases h : s = code.toList
    · exact .inl ⟨(code, e), List.mem_cons_self, h, by rw [firstOf, if_pos h]⟩
    · rw [firstOf, if_neg h]
      rcases ih with ⟨p, hp, hs⟩ | ⟨hnone, hother⟩
      · exact .inl ⟨p, List.mem_cons_of_mem _ hp, hs⟩
      · exact .inr ⟨List.forall_mem_cons.2 ⟨h, hnone⟩, hother⟩

theorem isA_iff {e c : SqlError} : IsA e c ↔ e = c ∨ ∃ b, e.base = some b ∧ IsA b c := by
  constructor
  · rintro (_ | ⟨hb, hc⟩)
    · exact .inl rfl
    · exact .inr ⟨_, hb, hc⟩
  · rintro (rfl | ⟨b, hb, hc⟩)
    · exact .refl _
    · exact .base hb hc

theorem isA_sqlError {c : SqlError} : IsA sqlError c ↔ sqlError = c := by
  rw [isA_iff]
  exact or_iff_left fun ⟨b, hb, _⟩ => by cases hb

/-- The classes that catch the exception for all other codes. -/
theorem isA_other {e c : SqlError} (he : e.base = some sqlError) : IsA e c ↔ e = c ∨ sqlError = c := by
  rw [isA_iff, he]
  simp [isA_sqlError]

/-- The classes that catch an error with a code of its own. -/
theorem isA_code {e b c : SqlError} (he : e.base = some b) (hb : b.base = some sqlError) :
    IsA e c ↔ e = c ∨ b = c ∨ sqlError = c := by
  rw [isA_iff, he]
  simp [isA_other hb]

/-- A class of errors with the first two characters is the exception for all other codes of the case. -/
theorem found_of_class {e : SqlError} (he : e.base = some sqlError) {c d : Char} {s : List Char}
    (hs : e.code.toList <+: c :: d :: s) : ∃ k, found c d = some k ∧ e = k.other := by
  obtain ⟨c', d', k, hk, hother, hcode⟩ := placed_class he
  rw [hcode, List.cons_prefix_cons, List.cons_prefix_cons] at hs
  obtain ⟨rfl, rfl, -⟩ := hs
  exact ⟨k, hk, hother⟩

/-- An error with a code of its own is in the case for the first two characters of that code. -/
theorem found_of_code {e b : SqlError} (he : e.base = some b) (hb : b ≠ sqlError) {c d : Char} {s : List Char}
    (hs : c :: d :: s = e.code.toList) :
    ∃ k, found c d = some k ∧ ∃ p ∈ k.codes, e = p.2 ∧ p.1.toList = c :: d :: s := by
  obtain ⟨c', d', k, p, hk, hp, rfl⟩ := placed_code he hb
  obtain ⟨-, hcode, htake⟩ := code_of_found hk hp
  rw [hcode] at hs
  rw [← hs, List.take_succ_cons, List.take_succ_cons, List.take_zero, List.cons.injEq, List.cons.injEq] at htake
  obtain ⟨rfl, rfl, -⟩ := htake
  exact ⟨k, hk, p, hp, rfl, hs.symm⟩

/-- The codes of a case are different. -/
theorem codes_inj {c d : Char} {k : Case} (h : found c d = some k) {p q : String × SqlError} (hp : p ∈ k.codes)
    (hq : q ∈ k.codes) (hpq : p.1.toList = q.1.toList) : p = q := by
  obtain ⟨cases, hmem, hk, -⟩ := found_iff.1 h
  exact List.inj_on_of_nodup_map ((switch_distinct.2 _ hmem).2 k hk) hp hq (String.toList_injective hpq)

end Sqlstate

open Sqlstate SqlError

/-- Whatever the SQLSTATE, a `sql_error` is thrown: `catch` of a class of errors catches exactly the codes that start
with the two characters of the class, and `catch` of an error below such a class exactly its own code. -/
theorem caught_by_class {s : List Char} (hs : 2 ≤ s.length) : ∃ e, throwSqlstate s = some e ∧ IsA e sqlError ∧
    (∀ c : SqlError, c.base = some sqlError → (IsA e c ↔ c.code.toList <+: s)) ∧
    ∀ c b : SqlError, c.base = some b → b ≠ sqlError → (IsA e c ↔ s = c.code.toList) := by
  obtain _ | ⟨c, _ | ⟨d, s⟩⟩ := s
  · simp at hs
  · simp at hs
  rw [throwSqlstate_eq]
  refine ⟨_, rfl, ?_⟩
  cases hfound : found c d with
  | none =>
    -- no case for the first two characters, so no class has them and no error a code with them
    refine ⟨.refl _, ?_, ?_⟩
    · intro e he
      rw [Option.elim_none, isA_sqlError]
      constructor
      · rintro rfl
        cases he
      · intro hprefix
        obtain ⟨k, hk, -⟩ := found_of_class he hprefix
        rw [hfound] at hk
        cases hk
    · intro e b he hb
      rw [Option.elim_none, isA_sqlError]
      constructor
      · rintro rfl
        cases he
      · intro hcode
        obtain ⟨k, hk, -⟩ := found_of_code he hb hcode
        rw [hfound] at hk
        cases hk
  | some k =>
    obtain ⟨hother, hclass⟩ := other_of_found hfound
    have hne : k.other ≠ sqlError := by
      intro heq
      rw [heq] at hother
      cases hother
    -- the classes with the two characters are one
    have hclasses : ∀ e : SqlError, e.base = some sqlError → (k.other = e ↔ e.code.toList <+: c :: d :: s) := by
      intro e he
      constructor
      · rintro rfl
        rw [hclass]
        exact ⟨s, rfl⟩
      · intro hprefix
        obtain ⟨k', hk', rfl⟩ := found_of_class he hprefix
        rw [hfound, Option.some.injEq] at hk'
        rw [hk']
    rw [Option.elim_some]
    rcases firstOf_cases (c :: d :: s) k.other k.codes with ⟨p, hp, hcode, hthrown⟩ | ⟨hnone, hthrown⟩
    · obtain ⟨hbase, hown, -⟩ := code_of_found hfound hp
      rw [hthrown]
      refine ⟨(isA_code hbase hother).2 (.inr (.inr rfl)), ?_, ?_⟩
      · intro e he
        rw [isA_code hbase hother, ← hclasses e he]
        constructor
        · rintro (rfl | h | rfl)
          · rw [hbase, Option.some.injEq] at he
            exact absurd he hne
          · exact h
          · cases he
        · exact fun h => .inr (.inl h)
      · intro e b he hb
        rw [isA_code hbase hother]
        constructor
        · rintro (rfl | rfl | rfl)
          · rw [hown, hcode]
          · rw [hother, Option.some.injEq] at he
            exact absurd he.symm hb
          · cases he
        · intro heq
          obtain ⟨k', hk', q, hq, rfl, hqcode⟩ := found_of_code he hb heq
          rw [hfound, Option.some.injEq] at hk'
          subst hk'
          exact .inl (congrArg Prod.snd (codes_inj hfound hp hq (hcode.symm.trans hqcode.symm)))
    · rw [hthrown]
      refine ⟨(isA_other hother).2 (.inr rfl), ?_, ?_⟩
      · intro e he
        rw [isA_other hother, ← hclasses e he]
        refine or_iff_left ?_
        rintro rfl
        cases he
      · intro e b he hb
        rw [isA_other hother]
        constructor
        · rintro (rfl | rfl)
          · rw [hother, Option.some.injEq] at he
            exact absurd he.symm hb
          · cases he
        · intro heq
          obtain ⟨k', hk', q, hq, rfl, hqcode⟩ := found_of_code he hb heq
          rw [hfound, Option.some.injEq] at hk'
          subst hk'
          exact absurd hqcode.symm (hnone q hq)

theorem caught_by_class_deadlock : ∃ e, throwSqlstate "40P01".toList = some e ∧ IsA e sqlError ∧
    (∀ c : SqlError, c.base = some sqlError → (IsA e c ↔ c.code.toList <+: "40P01".toList)) ∧
    ∀ c b : SqlError, c.base = some b → b ≠ sqlError → (IsA e c ↔ "40P01".toList = c.code.toList) :=
  caught_by_class (by decide)

end TaoPQ
